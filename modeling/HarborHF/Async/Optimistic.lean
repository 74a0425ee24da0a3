import Mathlib.Data.List.Nodup
import Mathlib.Logic.Function.Basic
import Mathlib.Logic.Relation
import HarborHF.Relational.Dict

/-!
# Optimistic writers over a versioned repository

A repository is a history of commits, each of which adds files. A writer reads the files at the head,
decides what to add, and commits on the condition that the head has not moved; otherwise it starts
again, a bounded number of times. Any number of writers run at once, and a request may end in an
error whether or not it was carried out.

`System.Sound` is what holds of every interleaving: the commit of a writer is what the writer decided
for the files right before the commit, and a writer commits at most once.
-/

set_option autoImplicit false

namespace Async

open Relational

/-! ### Repositories and writers -/

/-- What a writer decides for the files it has read. -/
inductive Decision (κ ν ε : Type)
  | done (answer : Bool)
  | fail (error : ε)
  | write (additions : List (κ × ν))
  deriving DecidableEq

/-- A commit with its author. -/
structure Commit (ι κ ν : Type) where
  author : ι
  additions : List (κ × ν)
  deriving DecidableEq

section

variable {ι κ ν ε : Type} [DecidableEq κ]

/-- Add files to those that are there. -/
def addFiles (files : Dict κ ν) (additions : List (κ × ν)) : Dict κ ν :=
  additions.foldl (fun files entry ↦ files.set entry.1 entry.2) files

/-- A file has the contents that were added last, or those it had. -/
theorem get?_addFiles {files : Dict κ ν} {additions : List (κ × ν)} {key : κ} :
    (addFiles files additions).get? key =
      ((additions.filter fun entry ↦ entry.1 = key).getLast?.map Prod.snd).or (files.get? key) :=
  Dict.get?_foldl_set

/-- The files after some commits. -/
def filesAfter (initial : Dict κ ν) (commits : List (Commit ι κ ν)) : Dict κ ν :=
  commits.foldl (fun files commit ↦ addFiles files commit.additions) initial

theorem filesAfter_append (initial : Dict κ ν) (commits : List (Commit ι κ ν))
    (commit : Commit ι κ ν) : filesAfter initial (commits ++ [commit]) =
      addFiles (filesAfter initial commits) commit.additions := by
  simp [filesAfter]

theorem mem_keys_addFiles {files : Dict κ ν} {additions : List (κ × ν)} {key : κ} :
    key ∈ (addFiles files additions).keys ↔ key ∈ files.keys ∨ key ∈ additions.map Prod.fst := by
  induction additions generalizing files with
  | nil => simp [addFiles]
  | cons entry rest ih =>
    have hset : key ∈ (files.set entry.1 entry.2).keys ↔ key ∈ files.keys ∨ key = entry.1 := by
      rw [Dict.keys_set]
      by_cases hmem : entry.1 ∈ files.keys
      · rw [if_pos hmem]
        constructor
        · exact .inl
        · rintro (h | rfl)
          · exact h
          · exact hmem
      · simp [hmem]
    rw [show addFiles files (entry :: rest) = addFiles (files.set entry.1 entry.2) rest from rfl, ih,
      hset, List.map_cons, List.mem_cons, or_assoc]

end

/-! ### Runs -/

/-- Where a writer is: about to read with some attempts left, about to commit what it decided for the
files after so many commits, or at its end. -/
inductive Phase (κ ν ε : Type)
  | idle (attempts : ℕ)
  | pending (attempts : ℕ) (head : ℕ) (additions : List (κ × ν))
  | finished (result : Except ε Bool)

/-- The history of a repository and the writers. -/
structure System (ι κ ν ε : Type) where
  commits : List (Commit ι κ ν)
  phase : ι → Phase κ ν ε

/-- The writers, the files they begin with and the errors of the repository itself. -/
structure Writers (ι κ ν ε : Type) where
  initial : Dict κ ν
  decide : ι → Dict κ ν → Decision κ ν ε
  attempts : ℕ
  contended : ε
  interrupted : ε

namespace Writers

variable {ι κ ν ε : Type} [DecidableEq ι] [DecidableEq κ] (W : Writers ι κ ν ε)

/-- The phase after reading the head. -/
def looked (writer : ι) (attempts : ℕ) (commits : List (Commit ι κ ν)) : Phase κ ν ε :=
  match W.decide writer (filesAfter W.initial commits) with
  | .done answer => .finished (.ok answer)
  | .fail error => .finished (.error error)
  | .write additions => .pending attempts commits.length additions

/-- The steps of a system. -/
inductive Step : System ι κ ν ε → System ι κ ν ε → Prop
  | look (system : System ι κ ν ε) (writer : ι) (attempts : ℕ)
      (h : system.phase writer = .idle (attempts + 1)) :
      Step system ⟨system.commits,
        Function.update system.phase writer (W.looked writer attempts system.commits)⟩
  | giveUp (system : System ι κ ν ε) (writer : ι) (h : system.phase writer = .idle 0) :
      Step system ⟨system.commits,
        Function.update system.phase writer (.finished (.error W.contended))⟩
  | commit (system : System ι κ ν ε) (writer : ι) (attempts : ℕ) (additions : List (κ × ν))
      (result : Except ε Bool) (hresult : result = .ok true ∨ result = .error W.interrupted)
      (h : system.phase writer = .pending attempts system.commits.length additions) :
      Step system ⟨system.commits ++ [⟨writer, additions⟩],
        Function.update system.phase writer (.finished result)⟩
  | conflict (system : System ι κ ν ε) (writer : ι) (attempts head : ℕ) (additions : List (κ × ν))
      (h : system.phase writer = .pending attempts head additions) :
      Step system ⟨system.commits, Function.update system.phase writer (.idle attempts)⟩
  | break (system : System ι κ ν ε) (writer : ι) (attempts head : ℕ) (additions : List (κ × ν))
      (h : system.phase writer = .pending attempts head additions) :
      Step system ⟨system.commits,
        Function.update system.phase writer (.finished (.error W.interrupted))⟩

/-- Before the first step there are no commits and every writer is idle. -/
def Start (system : System ι κ ν ε) : Prop :=
  system.commits = [] ∧ ∀ writer, system.phase writer = .idle W.attempts

/-- The systems that are reached. -/
def Reachable (system : System ι κ ν ε) : Prop :=
  ∃ start, W.Start start ∧ Relation.ReflTransGen W.Step start system

/-! ### What holds of every interleaving -/

/-- Every commit is what its author decided for the files before it. -/
structure Sound (system : System ι κ ν ε) : Prop where
  committed : ∀ before commit after, system.commits = before ++ commit :: after →
    W.decide commit.author (filesAfter W.initial before) = .write commit.additions
  once : (system.commits.map Commit.author).Nodup
  authors : ∀ commit ∈ system.commits, ∃ result, system.phase commit.author = .finished result
  pending : ∀ writer attempts head additions,
    system.phase writer = .pending attempts head additions → ∃ before after,
      system.commits = before ++ after ∧ before.length = head ∧
        W.decide writer (filesAfter W.initial before) = .write additions
  failed : ∀ writer error, system.phase writer = .finished (.error error) →
    error = W.contended ∨ error = W.interrupted ∨ ∃ before after,
      system.commits = before ++ after ∧
        W.decide writer (filesAfter W.initial before) = .fail error

variable {W} {system next : System ι κ ν ε}

omit [DecidableEq ι] in
theorem Start.sound (h : W.Start system) : W.Sound system := by
  obtain ⟨hcommits, hphase⟩ := h
  refine ⟨?_, ?_, ?_, ?_, ?_⟩
  · intro before commit after heq
    rw [hcommits] at heq
    simp at heq
  · rw [hcommits]
    exact List.nodup_nil
  · rw [hcommits]
    intro commit hcommit
    cases hcommit
  · intro writer attempts head additions h
    rw [hphase] at h
    cases h
  · intro writer error h
    rw [hphase] at h
    cases h

/-- A step that leaves the history alone keeps what was committed. -/
theorem Sound.of_phase (h : W.Sound system) {writer : ι} {phase : Phase κ ν ε}
    (hopen : ∀ result, system.phase writer ≠ .finished result)
    (hpending : ∀ attempts head additions, phase = .pending attempts head additions →
      ∃ before after, system.commits = before ++ after ∧ before.length = head ∧
        W.decide writer (filesAfter W.initial before) = .write additions)
    (hfailed : ∀ error, phase = .finished (.error error) →
      error = W.contended ∨ error = W.interrupted ∨ ∃ before after,
        system.commits = before ++ after ∧
          W.decide writer (filesAfter W.initial before) = .fail error) :
    W.Sound ⟨system.commits, Function.update system.phase writer phase⟩ := by
  refine ⟨h.committed, h.once, ?_, ?_, ?_⟩
  · intro commit hcommit
    obtain ⟨result, hresult⟩ := h.authors commit hcommit
    have hne : commit.author ≠ writer := by
      rintro rfl
      exact hopen result hresult
    exact ⟨result, by rw [← hresult]; exact Function.update_of_ne hne _ _⟩
  · intro other attempts head additions hother
    dsimp only at hother
    by_cases heq : other = writer
    · subst heq
      rw [Function.update_self] at hother
      exact hpending attempts head additions hother
    · rw [Function.update_of_ne heq] at hother
      exact h.pending other attempts head additions hother
  · intro other error hother
    dsimp only at hother
    by_cases heq : other = writer
    · subst heq
      rw [Function.update_self] at hother
      exact hfailed error hother
    · rw [Function.update_of_ne heq] at hother
      exact h.failed other error hother

/-- A commit is what its author decided for the head. -/
theorem Sound.of_commit (h : W.Sound system) {writer : ι} {attempts : ℕ}
    {additions : List (κ × ν)} {result : Except ε Bool}
    (hresult : result = .ok true ∨ result = .error W.interrupted)
    (hphase : system.phase writer = .pending attempts system.commits.length additions) :
    W.Sound ⟨system.commits ++ [⟨writer, additions⟩],
      Function.update system.phase writer (.finished result)⟩ := by
  have hdecide : W.decide writer (filesAfter W.initial system.commits) = .write additions := by
    obtain ⟨before, after, heq, hlength, hdecide⟩ := h.pending writer attempts _ additions hphase
    have hafter : after = [] := by
      have hlengths := congrArg List.length heq
      rw [List.length_append, hlength] at hlengths
      exact List.length_eq_zero_iff.mp (by omega)
    rw [heq, hafter, List.append_nil]
    exact hdecide
  have hauthor (commit : Commit ι κ ν) (hcommit : commit ∈ system.commits) :
      commit.author ≠ writer := by
    rintro rfl
    obtain ⟨other, hother⟩ := h.authors commit hcommit
    rw [hphase] at hother
    cases hother
  refine ⟨?_, ?_, ?_, ?_, ?_⟩
  · intro before commit after heq
    rcases List.eq_nil_or_concat after with rfl | ⟨rest, last, rfl⟩
    · obtain ⟨rfl, hsame⟩ := List.append_inj' heq rfl
      cases hsame
      exact hdecide
    · rw [List.concat_eq_append, ← List.cons_append, ← List.append_assoc] at heq
      exact h.committed before commit rest (List.append_inj' heq rfl).1
  · rw [List.map_append, List.nodup_append]
    refine ⟨h.once, by simp, ?_⟩
    intro author hmem other hother
    obtain ⟨commit, hcommit, rfl⟩ := List.mem_map.mp hmem
    rw [List.map_singleton, List.mem_singleton] at hother
    rw [hother]
    exact hauthor commit hcommit
  · intro commit hcommit
    rcases List.mem_append.mp hcommit with hmem | hmem
    · obtain ⟨other, hother⟩ := h.authors commit hmem
      exact ⟨other, by rw [← hother]; exact Function.update_of_ne (hauthor commit hmem) _ _⟩
    · rw [List.mem_singleton.mp hmem]
      exact ⟨result, Function.update_self _ _ _⟩
  · intro other attempts head additions hother
    dsimp only at hother
    have hne : other ≠ writer := by
      rintro rfl
      rw [Function.update_self] at hother
      cases hother
    rw [Function.update_of_ne hne] at hother
    obtain ⟨before, after, heq, hlength, hwrite⟩ := h.pending other attempts head additions hother
    exact ⟨before, after ++ [⟨writer, _⟩], by rw [heq, List.append_assoc], hlength, hwrite⟩
  · intro other error hother
    dsimp only at hother
    by_cases heq : other = writer
    · subst heq
      rw [Function.update_self] at hother
      rcases hresult with rfl | rfl
      · cases hother
      · cases hother
        exact .inr (.inl rfl)
    · rw [Function.update_of_ne heq] at hother
      rcases h.failed other error hother with herror | herror | ⟨before, after, hsplit, hfail⟩
      · exact .inl herror
      · exact .inr (.inl herror)
      · exact .inr (.inr ⟨before, after ++ [⟨writer, _⟩], by rw [hsplit, List.append_assoc], hfail⟩)

/-- One step keeps the system sound. -/
theorem Sound.step (h : W.Sound system) (hstep : W.Step system next) : W.Sound next := by
  cases hstep with
  | look writer attempts hphase =>
    refine h.of_phase (by simp [hphase]) ?_ ?_
    · intro attempts head additions heq
      unfold looked at heq
      split at heq
      · cases heq
      · cases heq
      · rename_i hdecide
        cases heq
        exact ⟨system.commits, [], by simp, rfl, hdecide⟩
    · intro error heq
      unfold looked at heq
      split at heq
      · cases heq
      · rename_i hdecide
        cases heq
        exact .inr (.inr ⟨system.commits, [], by simp, hdecide⟩)
      · cases heq
  | giveUp writer hphase =>
    refine h.of_phase (by simp [hphase]) (by simp) ?_
    intro error heq
    cases heq
    exact .inl rfl
  | commit writer attempts additions result hresult hphase => exact h.of_commit hresult hphase
  | conflict writer attempts head additions hphase =>
    exact h.of_phase (by simp [hphase]) (by simp) (by simp)
  | «break» writer attempts head additions hphase =>
    refine h.of_phase (by simp [hphase]) (by simp) ?_
    intro error heq
    cases heq
    exact .inr (.inl rfl)

theorem Reachable.step (h : W.Reachable system) (hstep : W.Step system next) :
    W.Reachable next := by
  obtain ⟨start, hstart, hsteps⟩ := h
  exact ⟨start, hstart, hsteps.tail hstep⟩

theorem Reachable.sound (h : W.Reachable system) : W.Sound system := by
  obtain ⟨start, hstart, hsteps⟩ := h
  induction hsteps with
  | refl => exact hstart.sound
  | tail _ hstep ih => exact ih.step hstep

end Writers

end Async
