import Mathlib.Data.List.Infix
import Mathlib.Tactic.Common
import HarborHF.Relational.Fold
import HarborHF.Relational.Separators

/-!
# Image references before and after locking

The preparation worker parses a declared image reference and locks it to a digest; the control
service compares the repositories of the declared and the locked image when a trial is submitted,
and the Sandbox environment compares them again when the trial runs. The three are written apart.

The service drops a spelled out Docker Hub host and adds the implicit `library` namespace; the
Sandbox environment does neither.
-/

set_option autoImplicit false

namespace HarborHF.Prepared

open Relational

abbrev Text := List Char

/-! ### The preparation worker -/

def registryHost : Text := "registry-1.docker.io".toList

/-- `re.fullmatch(r"sha256:[0-9a-f]{64}", digest)`. -/
def digestMatches (digest : Text) : Bool :=
  digest.take 7 == "sha256:".toList && (digest.drop 7).length == 64 &&
    (digest.drop 7).all fun char ↦ char.isDigit || ('a' ≤ char && char ≤ 'f')

/-- `"@sha256:" in image`. -/
def hasDigest (image : Text) : Bool := decide ("@sha256:".toList <:+: image)

/-- Whether the text before the first slash names a registry. -/
def namesRegistry (image : Text) : Bool :=
  let first := beforeFirst '/' image
  image.contains '/' && (first.contains '.' || first.contains ':' || first == "localhost".toList)

/-- The registry of a reference without a digest, and its path with the tag still on. -/
def registryPath (image : Text) : Text × Text :=
  let (named, rest) := if namesRegistry image then
    (beforeFirst '/' image, (fromFirst '/' image).drop 1) else (registryHost, image)
  let registry := if named = "docker.io".toList then registryHost else named
  (registry, if registry = registryHost ∧ '/' ∉ rest then "library/".toList ++ rest else rest)

/-- The path and the tag, which only the last component can carry. -/
def splitReference (path : Text) : Text × Text :=
  if ':' ∈ afterLast '/' path then (beforeLast ':' path, afterLast ':' path)
  else (path, "latest".toList)

/-- `_parse_image`: the registry (empty for a reference with a digest), the repository and the
tag or digest. -/
def parseImage (image : Text) : Except String (Text × Text × Text) :=
  if hasDigest image then .ok ([], beforeLast '@' image, afterLast '@' image) else
    let (registry, path) := registryPath image
    let (repository, reference) := splitReference path
    if repository = [] ∨ reference = [] then .error "task image reference is invalid"
    else .ok (registry, repository, reference)

/-- `_manifest_digest`: the digest header of the registry's answer to the manifest request. -/
def manifestDigest (contentDigest : Text → Text → Text → Option Text)
    (registry repository reference : Text) : Except String Text :=
  match contentDigest registry repository reference with
  | none => .error "OCI manifest request failed"
  | some digest => if digestMatches digest then .ok digest else
      .error "OCI registry did not return a valid manifest digest"

/-- `_locked_image`. -/
def lockedImage (contentDigest : Text → Text → Text → Option Text) (image : Text) :
    Except String Text := do
  let (registry, repository, reference) ← parseImage image
  if registry = [] then
    if digestMatches reference then return repository ++ '@' :: reference
    else throw "task image digest is invalid"
  else
    let digest ← manifestDigest contentDigest registry repository reference
    return (if registry ≠ registryHost then registry ++ '/' :: repository else repository) ++
      '@' :: digest

/-! ### The two repository checks -/

/-- A reference without its tag. -/
def untagged (reference : Text) : Text :=
  if ':' ∈ afterLast '/' reference then beforeLast ':' reference else reference

def hubHosts : List Text := ["docker.io".toList, registryHost]

/-- Whether `/^(?:docker\.io|registry-1\.docker\.io)\//` matches: the text up to the first slash is
one of the two hosts. -/
def namesHub (repository : Text) : Prop :=
  '/' ∈ repository ∧ beforeFirst '/' repository ∈ hubHosts

instance (repository : Text) : Decidable (namesHub repository) :=
  inferInstanceAs (Decidable (_ ∧ _))

def withoutHub (repository : Text) : Text :=
  if namesHub repository then (fromFirst '/' repository).drop 1 else repository

def withNamespace (repository : Text) : Text :=
  if '/' ∈ repository then repository else "library/".toList ++ repository

/-- `imageRepository` of the control service. -/
def imageRepository (value : Text) : Text :=
  withNamespace (withoutHub (untagged (beforeFirst '@' value)))

/-- `_image_repository` of the Sandbox environment. -/
def sandboxImageRepository (value : Text) : Text := untagged (beforeFirst '@' value)

/-- The check of a submitted trial in `submitPreparedJobSerialized`. -/
def serviceAccepts (declared image : Text) : Prop := imageRepository declared = imageRepository image

/-- The check of a prepared trial in `_validate_definition`. -/
def sandboxAccepts (declared resolved : Text) : Prop :=
  sandboxImageRepository declared = sandboxImageRepository resolved

instance (declared image : Text) : Decidable (serviceAccepts declared image) :=
  inferInstanceAs (Decidable (_ = _))

instance (declared resolved : Text) : Decidable (sandboxAccepts declared resolved) :=
  inferInstanceAs (Decidable (_ = _))

/-! ### Tags -/

theorem untagged_append_slash (front rest : Text) :
    untagged (front ++ '/' :: rest) = front ++ '/' :: untagged rest := by
  unfold untagged
  rw [afterLast_append_sep]
  by_cases h : ':' ∈ afterLast '/' rest
  · have hmem : ':' ∈ '/' :: rest := List.mem_cons_of_mem _ (mem_of_mem_afterLast '/' h)
    have hfront : front ++ '/' :: rest = (front ++ ['/']) ++ rest := by simp
    rw [if_pos h, if_pos h, hfront, beforeLast_append_of_mem ':' _ (mem_of_mem_afterLast '/' h)]
    simp
  · rw [if_neg h, if_neg h]

theorem untagged_of_notMem_slash {name : Text} (h : '/' ∉ name) :
    untagged name = if ':' ∈ name then beforeLast ':' name else name := by
  unfold untagged
  rw [afterLast_of_notMem '/' h]

theorem slash_mem_untagged (reference : Text) : '/' ∈ untagged reference ↔ '/' ∈ reference := by
  by_cases h : '/' ∈ reference
  · obtain ⟨front, back, rfl, hback⟩ := exists_last '/' h
    rw [untagged_append_slash]
    simp
  · rw [untagged_of_notMem_slash h]
    refine iff_of_false (fun hmem ↦ h ?_) h
    split_ifs at hmem
    · exact mem_of_mem_beforeLast ':' hmem
    · exact hmem

theorem length_untagged_le (reference : Text) : (untagged reference).length ≤ reference.length := by
  unfold untagged
  split_ifs with h
  · exact Nat.le_of_lt (length_beforeLast_lt ':' (mem_of_mem_afterLast '/' h))
  · exact Nat.le_refl _

theorem untagged_eq_self_iff (reference : Text) :
    untagged reference = reference ↔ ':' ∉ afterLast '/' reference := by
  unfold untagged
  by_cases h : ':' ∈ afterLast '/' reference
  · rw [if_pos h]
    refine iff_of_false (fun heq ↦ ?_) (not_not_intro h)
    have hlt := length_beforeLast_lt ':' (mem_of_mem_afterLast '/' h)
    rw [heq] at hlt
    exact Nat.lt_irrefl _ hlt
  · rw [if_neg h]
    exact iff_of_true rfl h

/-- Once its tag is off, a reference has a tag left when its last component had two colons. -/
theorem colon_mem_afterLast_untagged (reference : Text) :
    ':' ∈ afterLast '/' (untagged reference) ↔ 2 ≤ (afterLast '/' reference).count ':' := by
  have hname : ∀ name : Text, '/' ∉ name → (':' ∈ untagged name ↔ 2 ≤ name.count ':') := by
    intro name hslash
    rw [untagged_of_notMem_slash hslash]
    by_cases h : ':' ∈ name
    · obtain ⟨front, back, rfl, hback⟩ := exists_last ':' h
      rw [if_pos h, beforeLast_append_cons ':' front hback, List.count_append, List.count_cons_self,
        List.count_eq_zero_of_not_mem hback, ← List.count_pos_iff]
      omega
    · rw [if_neg h, List.count_eq_zero_of_not_mem h]
      exact iff_of_false h (by omega)
  by_cases h : '/' ∈ reference
  · obtain ⟨front, back, rfl, hback⟩ := exists_last '/' h
    have hnot : '/' ∉ untagged back := fun hmem ↦ hback ((slash_mem_untagged back).mp hmem)
    rw [untagged_append_slash, afterLast_append_cons '/' front hnot,
      afterLast_append_cons '/' front hback]
    exact hname back hback
  · have hnot : '/' ∉ untagged reference := fun hmem ↦ h ((slash_mem_untagged reference).mp hmem)
    rw [afterLast_of_notMem '/' hnot, afterLast_of_notMem '/' h]
    exact hname reference h

/-! ### Hosts and namespaces -/

theorem slash_notMem_host {host : Text} (hhost : host ∈ hubHosts) : '/' ∉ host := by
  have hall : ∀ host ∈ hubHosts, '/' ∉ host := by decide
  exact hall host hhost

theorem namesHub_append {host : Text} (hhost : host ∈ hubHosts) (rest : Text) :
    namesHub (host ++ '/' :: rest) := by
  refine ⟨by simp, ?_⟩
  rwa [beforeFirst_append_cons '/' (slash_notMem_host hhost)]

theorem withoutHub_append {host : Text} (hhost : host ∈ hubHosts) (rest : Text) :
    withoutHub (host ++ '/' :: rest) = rest := by
  unfold withoutHub
  rw [if_pos (namesHub_append hhost rest), fromFirst_append_cons '/' (slash_notMem_host hhost),
    List.drop_one, List.tail_cons]

theorem withoutHub_of_not {repository : Text} (h : ¬ namesHub repository) :
    withoutHub repository = repository :=
  if_neg h

theorem exists_of_namesHub {repository : Text} (h : namesHub repository) :
    ∃ host ∈ hubHosts, repository = host ++ '/' :: withoutHub repository := by
  refine ⟨beforeFirst '/' repository, h.2, ?_⟩
  unfold withoutHub
  rw [if_pos h]
  exact append_cons_of_mem '/' h.1

theorem not_namesHub_of_notMem {repository : Text} (h : '/' ∉ repository) : ¬ namesHub repository :=
  fun hhub ↦ h hhub.1

theorem namesHub_untagged (reference : Text) : namesHub (untagged reference) ↔ namesHub reference := by
  by_cases h : '/' ∈ reference
  · have hsplit := append_cons_of_mem '/' h
    have hnot := notMem_beforeFirst '/' reference
    rw [hsplit, untagged_append_slash]
    unfold namesHub
    rw [beforeFirst_append_cons '/' hnot, beforeFirst_append_cons '/' hnot]
    simp
  · exact iff_of_false (fun hhub ↦ h ((slash_mem_untagged reference).mp hhub.1))
      (not_namesHub_of_notMem h)

theorem withoutHub_untagged (reference : Text) :
    withoutHub (untagged reference) = untagged (withoutHub reference) := by
  by_cases h : namesHub reference
  · obtain ⟨host, hhost, heq⟩ := exists_of_namesHub h
    rw [heq, untagged_append_slash, withoutHub_append hhost, withoutHub_append hhost]
  · have hnot : ¬ namesHub (untagged reference) := fun hhub ↦ h ((namesHub_untagged reference).mp hhub)
    rw [withoutHub_of_not h, withoutHub_of_not hnot]

theorem afterLast_withoutHub (reference : Text) :
    afterLast '/' (withoutHub reference) = afterLast '/' reference := by
  by_cases h : namesHub reference
  · obtain ⟨host, hhost, heq⟩ := exists_of_namesHub h
    rw [heq, withoutHub_append hhost, afterLast_append_sep]
  · rw [withoutHub_of_not h]

theorem withNamespace_untagged (reference : Text) :
    withNamespace (untagged reference) = untagged (withNamespace reference) := by
  unfold withNamespace
  by_cases h : '/' ∈ reference
  · rw [if_pos h, if_pos ((slash_mem_untagged reference).mpr h)]
  · have hsplit : "library/".toList ++ reference = "library".toList ++ '/' :: reference := rfl
    rw [if_neg h, if_neg (fun hmem ↦ h ((slash_mem_untagged reference).mp hmem)), hsplit,
      untagged_append_slash]
    rfl

theorem afterLast_withNamespace (repository : Text) :
    afterLast '/' (withNamespace repository) = afterLast '/' repository := by
  unfold withNamespace
  split_ifs
  · rfl
  · exact afterLast_append_sep '/' "library".toList repository

theorem not_namesHub_withNamespace {repository : Text} (h : ¬ namesHub repository) :
    ¬ namesHub (withNamespace repository) := by
  unfold withNamespace
  split_ifs with hslash
  · exact h
  · have hlibrary : beforeFirst '/' ("library".toList ++ '/' :: repository) = "library".toList :=
      beforeFirst_append_cons '/' (by decide) repository
    intro hhub
    have hmem : "library".toList ∈ hubHosts := hlibrary ▸ hhub.2
    revert hmem
    decide

theorem slash_mem_withNamespace (repository : Text) : '/' ∈ withNamespace repository := by
  unfold withNamespace
  split_ifs with hslash
  · exact hslash
  · exact List.mem_append_left _ (by decide)

theorem withNamespace_of_mem {repository : Text} (h : '/' ∈ repository) :
    withNamespace repository = repository :=
  if_pos h

theorem length_withNamespace_le (repository : Text) :
    (withNamespace repository).length ≤ 8 + repository.length := by
  unfold withNamespace
  split_ifs
  · omega
  · rw [List.length_append]
    exact Nat.le_refl _

theorem length_withNamespace_withoutHub {repository : Text} (h : namesHub repository) :
    (withNamespace (withoutHub repository)).length < (withNamespace repository).length := by
  obtain ⟨host, hhost, heq⟩ := exists_of_namesHub h
  have hlong : 9 ≤ host.length := by
    have hall : ∀ host ∈ hubHosts, 9 ≤ host.length := by decide
    exact hall host hhost
  have hle := length_withNamespace_le (withoutHub repository)
  have hlength := congrArg List.length heq
  rw [List.length_append, List.length_cons] at hlength
  rw [withNamespace_of_mem h.1]
  omega

theorem withNamespace_withoutHub_eq_iff (repository : Text) :
    withNamespace (withoutHub repository) = withNamespace repository ↔ ¬ namesHub repository := by
  by_cases h : namesHub repository
  · refine iff_of_false (fun heq ↦ ?_) (not_not_intro h)
    have hlt := length_withNamespace_withoutHub h
    rw [heq] at hlt
    exact Nat.lt_irrefl _ hlt
  · exact iff_of_true (congrArg withNamespace (withoutHub_of_not h)) h

/-! ### What the worker locks -/

theorem namesRegistry_of_namesHub {image : Text} (h : namesHub image) : namesRegistry image = true := by
  have hdot : ∀ host ∈ hubHosts, host.contains '.' = true := by decide
  unfold namesRegistry
  simp only [Bool.and_eq_true, Bool.or_eq_true, List.contains_iff_mem]
  exact ⟨h.1, .inl (.inl (List.contains_iff_mem.mp (hdot _ h.2)))⟩

theorem slash_mem_of_namesRegistry {image : Text} (h : namesRegistry image = true) : '/' ∈ image := by
  unfold namesRegistry at h
  rw [Bool.and_eq_true] at h
  exact List.contains_iff_mem.mp h.1

/-- The name an image is locked under: the registry, when it is not the hub, and the repository. -/
def publicName (image : Text) : Text :=
  let (registry, path) := registryPath image
  if registry ≠ registryHost then registry ++ '/' :: untagged path else untagged path

/-- The locked name is the repository of the declared reference as the service writes it. -/
theorem publicName_eq (image : Text) :
    publicName image = withNamespace (withoutHub (untagged image)) := by
  have hlibrary : ∀ rest, untagged (if '/' ∉ rest then "library/".toList ++ rest else rest) =
      withNamespace (untagged rest) := by
    intro rest
    rw [withNamespace_untagged]
    unfold withNamespace
    rw [ite_not]
  by_cases hhub : namesHub image
  · obtain ⟨host, hhost, heq⟩ := exists_of_namesHub hhub
    have hnamed : beforeFirst '/' image ∈ hubHosts := hhub.2
    have hregistry : (if beforeFirst '/' image = "docker.io".toList then registryHost
        else beforeFirst '/' image) = registryHost := by
      split_ifs with hdocker
      · rfl
      · have hpair : beforeFirst '/' image = "docker.io".toList ∨
            beforeFirst '/' image = registryHost := by simpa [hubHosts] using hnamed
        exact hpair.resolve_left hdocker
    have hrest : (fromFirst '/' image).drop 1 = withoutHub image := (if_pos hhub).symm
    unfold publicName registryPath
    simp only [namesRegistry_of_namesHub hhub, if_true, hregistry, ne_eq, not_true, if_false,
      true_and, hrest]
    rw [hlibrary, withoutHub_untagged]
  · have hnot : ¬ namesHub (untagged image) := fun h ↦ hhub ((namesHub_untagged image).mp h)
    rw [withoutHub_of_not hnot]
    by_cases hregistry : namesRegistry image = true
    · have hslash := slash_mem_of_namesRegistry hregistry
      have hdocker : beforeFirst '/' image ≠ "docker.io".toList := fun h ↦
        hhub ⟨hslash, h ▸ List.mem_cons_self⟩
      have hhost : beforeFirst '/' image ≠ registryHost := fun h ↦
        hhub ⟨hslash, h ▸ List.mem_cons_of_mem _ List.mem_cons_self⟩
      unfold publicName registryPath
      simp only [hregistry, if_true, if_neg hdocker, ne_eq, hhost, not_false_eq_true, false_and,
        if_false]
      rw [← untagged_append_slash, ← append_cons_of_mem '/' hslash,
        withNamespace_of_mem ((slash_mem_untagged image).mpr hslash)]
    · have hhost : registryHost ≠ "docker.io".toList := by decide
      unfold publicName registryPath
      simp only [hregistry, if_false, if_neg hhost, ne_eq, not_true, true_and, Bool.false_eq_true]
      exact hlibrary image

theorem splitReference_fst (path : Text) : (splitReference path).1 = untagged path := by
  unfold splitReference untagged
  split_ifs <;> rfl

theorem registryPath_ne_nil (image : Text) : (registryPath image).1 ≠ [] := by
  have hhost : registryHost ≠ [] := by decide
  unfold registryPath
  by_cases hregistry : namesRegistry image = true
  · simp only [hregistry, if_true]
    split_ifs
    · exact hhost
    · intro hnil
      unfold namesRegistry at hregistry
      simp [hnil] at hregistry
  · simp only [hregistry, Bool.false_eq_true, if_false]
    split_ifs
    · exact hhost
    · exact hhost

theorem parseImage_of_hasDigest {image : Text} (h : hasDigest image = true) :
    parseImage image = .ok ([], beforeLast '@' image, afterLast '@' image) :=
  if_pos h

theorem eq_of_parseImage {image registry repository reference : Text}
    (hdigest : ¬ hasDigest image = true)
    (h : parseImage image = .ok (registry, repository, reference)) :
    registry = (registryPath image).1 ∧ repository = untagged (registryPath image).2 := by
  unfold parseImage at h
  rw [if_neg hdigest] at h
  dsimp only at h
  split_ifs at h
  cases h
  exact ⟨rfl, splitReference_fst _⟩

/-- A locked image is the declared one, when that carries its digest, or the locked name with the
digest the registry gave. -/
theorem eq_of_lockedImage {contentDigest : Text → Text → Text → Option Text} {image locked : Text}
    (h : lockedImage contentDigest image = .ok locked) : (hasDigest image = true ∧ locked = image) ∨
      (¬ hasDigest image = true ∧ ∃ digest, locked = publicName image ++ '@' :: digest) := by
  unfold lockedImage at h
  obtain ⟨⟨registry, repository, reference⟩, hparse, hlock⟩ := bind_eq_ok.mp h
  dsimp only at hlock
  by_cases hdigest : hasDigest image = true
  · have hat : '@' ∈ image := by
      have hinside : "@sha256:".toList <:+: image := of_decide_eq_true hdigest
      exact hinside.subset (by decide)
    rw [parseImage_of_hasDigest hdigest] at hparse
    cases hparse
    rw [if_pos rfl] at hlock
    split_ifs at hlock
    refine .inl ⟨hdigest, ?_⟩
    rw [← Except.ok.inj hlock]
    exact beforeLast_append_afterLast '@' hat
  · obtain ⟨rfl, rfl⟩ := eq_of_parseImage hdigest hparse
    rw [if_neg (registryPath_ne_nil image)] at hlock
    obtain ⟨digest, -, hlock⟩ := bind_eq_ok.mp hlock
    exact .inr ⟨hdigest, digest, (Except.ok.inj hlock).symm⟩

/-! ### The name in front of the digest -/

theorem at_notMem_host {host : Text} (hhost : host ∈ hubHosts) : '@' ∉ host := by
  have hall : ∀ host ∈ hubHosts, '@' ∉ host := by decide
  exact hall host hhost

theorem namesHub_beforeFirst (value : Text) : namesHub (beforeFirst '@' value) ↔ namesHub value := by
  constructor
  · intro h
    obtain ⟨host, hhost, heq⟩ := exists_of_namesHub h
    rw [← beforeFirst_append_fromFirst '@' value, heq, List.append_assoc, List.cons_append]
    exact namesHub_append hhost _
  · intro h
    obtain ⟨host, hhost, heq⟩ := exists_of_namesHub h
    have hassoc : host ++ '/' :: withoutHub value = (host ++ ['/']) ++ withoutHub value := by simp
    have hnot : '@' ∉ host ++ ['/'] := by simp [at_notMem_host hhost]
    rw [heq, hassoc, beforeFirst_append '@' hnot, List.append_assoc]
    exact namesHub_append hhost _

theorem withoutHub_beforeFirst (value : Text) :
    withoutHub (beforeFirst '@' value) = beforeFirst '@' (withoutHub value) := by
  by_cases h : namesHub value
  · obtain ⟨host, hhost, heq⟩ := exists_of_namesHub h
    have hassoc : ∀ rest, host ++ '/' :: rest = (host ++ ['/']) ++ rest := by simp
    have hnot : '@' ∉ host ++ ['/'] := by simp [at_notMem_host hhost]
    rw [heq, withoutHub_append hhost, hassoc, beforeFirst_append '@' hnot, ← hassoc,
      withoutHub_append hhost]
  · have hnot : ¬ namesHub (beforeFirst '@' value) := fun hhub ↦ h ((namesHub_beforeFirst value).mp hhub)
    rw [withoutHub_of_not h, withoutHub_of_not hnot]

/-- The repository of a repository that is already written out is that repository with the tag and
the host taken off once more. -/
theorem imageRepository_withNamespace (value digest : Text) :
    imageRepository (withNamespace (withoutHub value) ++ '@' :: digest) =
      withNamespace (withoutHub (withoutHub (untagged (beforeFirst '@' value)))) := by
  have htwice : withoutHub (withoutHub (untagged (beforeFirst '@' value))) =
      withoutHub (untagged (beforeFirst '@' (withoutHub value))) := by
    rw [withoutHub_untagged, withoutHub_beforeFirst]
  rw [htwice]
  unfold imageRepository
  rw [beforeFirst_append_sep]
  by_cases h : '/' ∈ withoutHub value
  · rw [withNamespace_of_mem h]
  · -- without a namespace there is no host either, and `library` is not one
    have hnot : ¬ namesHub (untagged (beforeFirst '@' (withoutHub value))) := by
      rw [namesHub_untagged, namesHub_beforeFirst]
      exact not_namesHub_of_notMem h
    have hbefore : beforeFirst '@' (withNamespace (withoutHub value)) =
        withNamespace (beforeFirst '@' (withoutHub value)) := by
      have hslash : '/' ∉ beforeFirst '@' (withoutHub value) := fun hmem ↦
        h (List.takeWhile_sublist _ |>.mem hmem)
      unfold withNamespace
      rw [if_neg h, if_neg hslash, beforeFirst_append '@' (by decide)]
    rw [hbefore, ← withNamespace_untagged, withoutHub_of_not (not_namesHub_withNamespace hnot),
      withoutHub_of_not hnot, withNamespace_of_mem (slash_mem_withNamespace _)]

/-- Taking the tag off before cutting at the first `@` takes it off the name, unless a later slash or
colon hides it. -/
theorem beforeFirst_untagged (value : Text) : beforeFirst '@' (untagged value) =
      if ':' ∈ fromFirst '@' value ∨ '/' ∈ fromFirst '@' value then beforeFirst '@' value
      else untagged (beforeFirst '@' value) := by
  have hat := notMem_beforeFirst '@' value
  have hsplit := beforeFirst_append_fromFirst '@' value
  by_cases hslash : '/' ∈ fromFirst '@' value
  · rw [if_pos (.inr hslash)]
    obtain hnil | ⟨rest, hrest⟩ := fromFirst_eq_nil_or '@' value
    · simp [hnil] at hslash
    · rw [hrest] at hslash hsplit
      obtain ⟨front, back, rfl, -⟩ := exists_last '/' (show '/' ∈ rest by simpa using hslash)
      have hassoc : beforeFirst '@' value ++ '@' :: (front ++ '/' :: back) =
          (beforeFirst '@' value ++ '@' :: front) ++ '/' :: back := by simp
      rw [← hsplit, hassoc, untagged_append_slash, List.append_assoc, List.cons_append,
        beforeFirst_append_cons '@' hat, List.append_assoc, List.cons_append,
        beforeFirst_append_cons '@' hat]
  · have hlast : afterLast '/' value = afterLast '/' (beforeFirst '@' value) ++ fromFirst '@' value := by
      rw [← afterLast_append '/' _ hslash, hsplit]
    by_cases hcolon : ':' ∈ fromFirst '@' value
    · rw [if_pos (.inl hcolon)]
      obtain hnil | ⟨rest, hrest⟩ := fromFirst_eq_nil_or '@' value
      · simp [hnil] at hcolon
      · have hmem : ':' ∈ rest := by simpa [hrest] using hcolon
        have hassoc : beforeFirst '@' value ++ '@' :: rest =
            (beforeFirst '@' value ++ ['@']) ++ rest := by simp
        unfold untagged
        rw [hlast, if_pos (List.mem_append_right _ hcolon), ← hsplit, hrest, hassoc,
          beforeLast_append_of_mem ':' _ hmem, List.append_assoc, List.singleton_append,
          beforeFirst_append_cons '@' hat, List.append_assoc, List.singleton_append,
          beforeFirst_append_cons '@' hat]
    · have hneither : ¬ (':' ∈ fromFirst '@' value ∨ '/' ∈ fromFirst '@' value) := by
        simp [hcolon, hslash]
      rw [if_neg hneither]
      unfold untagged
      rw [hlast]
      by_cases htag : ':' ∈ afterLast '/' (beforeFirst '@' value)
      · have hmem := mem_of_mem_afterLast '/' htag
        have hcut : beforeLast ':' value = beforeLast ':' (beforeFirst '@' value) := by
          rw [← beforeLast_append_of_notMem ':' hmem hcolon, hsplit]
        rw [if_pos (List.mem_append_left _ htag), if_pos htag, hcut]
        exact beforeFirst_of_notMem '@' fun h ↦ hat (mem_of_mem_beforeLast ':' h)
      · have hnot : ':' ∉ afterLast '/' (beforeFirst '@' value) ++ fromFirst '@' value := by
          simp [htag, hcolon]
        rw [if_neg hnot, if_neg htag]

/-! ### When the three agree -/

/-- The declared reference carries its digest; or, in front of any `@`, it spells out the hub's host
at most once, and its last component has at most one colon there or is not what the tag is cut from. -/
def LocksAlike (declared : Text) : Prop :=
  hasDigest declared = true ∨
    (¬ namesHub (withoutHub (beforeFirst '@' declared)) ∧
      (':' ∈ fromFirst '@' declared ∨ '/' ∈ fromFirst '@' declared ∨
        (afterLast '/' (beforeFirst '@' declared)).count ':' ≤ 1))

/-- The host of the hub, where it is spelled out. -/
def hubHost (repository : Text) : Option Text :=
  if namesHub repository then some (beforeFirst '/' repository) else none

/-- Both references spell out the same host of the hub or none, and both or neither name a
namespace. -/
def SpelledAlike (declared image : Text) : Prop :=
  hubHost (beforeFirst '@' declared) = hubHost (beforeFirst '@' image) ∧
    ('/' ∈ withoutHub (beforeFirst '@' declared) ↔ '/' ∈ withoutHub (beforeFirst '@' image))

/-- Cutting the tag off twice and taking the host off twice changes nothing only when there was
nothing left for the second time. -/
theorem withNamespace_twice_eq_iff (value : Text) :
    withNamespace (withoutHub (withoutHub (untagged value))) = withNamespace (withoutHub value) ↔
      ¬ namesHub (withoutHub value) ∧ ':' ∉ afterLast '/' value := by
  rw [withoutHub_untagged, withoutHub_untagged, withNamespace_untagged]
  have htail : afterLast '/' (withNamespace (withoutHub (withoutHub value))) = afterLast '/' value := by
    rw [afterLast_withNamespace, afterLast_withoutHub, afterLast_withoutHub]
  constructor
  · intro h
    have hhub : ¬ namesHub (withoutHub value) := by
      intro hhub
      have hlt := length_withNamespace_withoutHub hhub
      rw [← h] at hlt
      exact Nat.lt_irrefl _ (Nat.lt_of_lt_of_le hlt (length_untagged_le _))
    refine ⟨hhub, ?_⟩
    rw [← htail, ← untagged_eq_self_iff, h, (withNamespace_withoutHub_eq_iff _).mpr hhub]
  · rintro ⟨hhub, hcolon⟩
    rw [← htail, ← untagged_eq_self_iff] at hcolon
    rw [hcolon, (withNamespace_withoutHub_eq_iff _).mpr hhub]

theorem serviceAccepts_publicName_iff (declared digest : Text) :
    serviceAccepts declared (publicName declared ++ '@' :: digest) ↔
      ¬ namesHub (withoutHub (beforeFirst '@' declared)) ∧
        (':' ∈ fromFirst '@' declared ∨ '/' ∈ fromFirst '@' declared ∨
          (afterLast '/' (beforeFirst '@' declared)).count ':' ≤ 1) := by
  have hhub : namesHub (withoutHub (untagged (beforeFirst '@' declared))) ↔
      namesHub (withoutHub (beforeFirst '@' declared)) := by
    rw [withoutHub_untagged, namesHub_untagged]
  unfold serviceAccepts
  rw [publicName_eq, imageRepository_withNamespace, beforeFirst_untagged, eq_comm]
  unfold imageRepository
  by_cases hlate : ':' ∈ fromFirst '@' declared ∨ '/' ∈ fromFirst '@' declared
  · rw [if_pos hlate, withNamespace_withoutHub_eq_iff, hhub]
    refine ⟨fun h ↦ ⟨h, ?_⟩, fun h ↦ h.1⟩
    exact hlate.imp_right .inl
  · rw [if_neg hlate, withNamespace_twice_eq_iff, hhub, colon_mem_afterLast_untagged, Nat.not_le,
      ← or_assoc, or_iff_right hlate, Nat.lt_succ_iff]

theorem serviceAccepts_lockedImage_iff {contentDigest : Text → Text → Text → Option Text}
    {declared locked : Text} (h : lockedImage contentDigest declared = .ok locked) :
    serviceAccepts declared locked ↔ LocksAlike declared := by
  unfold LocksAlike
  obtain ⟨hdigest, rfl⟩ | ⟨hdigest, digest, rfl⟩ := eq_of_lockedImage h
  · exact iff_of_true rfl (.inl hdigest)
  · rw [serviceAccepts_publicName_iff, or_iff_right hdigest]

/-- A repository is its host of the hub and the rest. -/
theorem eq_of_hubHost {first second : Text} (hhost : hubHost first = hubHost second)
    (hrest : withoutHub first = withoutHub second) : first = second := by
  unfold hubHost at hhost
  by_cases hfirst : namesHub first
  · by_cases hsecond : namesHub second
    · rw [if_pos hfirst, if_pos hsecond] at hhost
      unfold withoutHub at hrest
      rw [if_pos hfirst, if_pos hsecond] at hrest
      rw [append_cons_of_mem '/' hfirst.1, append_cons_of_mem '/' hsecond.1, hrest,
        Option.some.inj hhost]
    · rw [if_pos hfirst, if_neg hsecond] at hhost
      cases hhost
  · by_cases hsecond : namesHub second
    · rw [if_neg hfirst, if_pos hsecond] at hhost
      cases hhost
    · rwa [withoutHub_of_not hfirst, withoutHub_of_not hsecond] at hrest

theorem hubHost_untagged (reference : Text) : hubHost (untagged reference) = hubHost reference := by
  unfold hubHost
  by_cases h : namesHub reference
  · have hsplit := append_cons_of_mem '/' h.1
    rw [if_pos h, if_pos ((namesHub_untagged reference).mpr h)]
    refine congrArg some ?_
    conv_lhs => rw [hsplit, untagged_append_slash]
    exact beforeFirst_append_cons '/' (notMem_beforeFirst '/' reference) _
  · rw [if_neg h, if_neg fun hhub ↦ h ((namesHub_untagged reference).mp hhub)]

/-- A pair the service accepts passes the Sandbox environment's check exactly when the two are
spelled alike. -/
theorem sandboxAccepts_iff {declared image : Text} (h : serviceAccepts declared image) :
    sandboxAccepts declared image ↔ SpelledAlike declared image := by
  unfold serviceAccepts imageRepository at h
  unfold sandboxAccepts sandboxImageRepository SpelledAlike
  rw [← hubHost_untagged (beforeFirst '@' declared), ← hubHost_untagged (beforeFirst '@' image), ←
    slash_mem_untagged (withoutHub (beforeFirst '@' declared)), ← slash_mem_untagged (withoutHub
    (beforeFirst '@' image)), ← withoutHub_untagged, ← withoutHub_untagged]
  generalize untagged (beforeFirst '@' declared) = first at h ⊢
  generalize untagged (beforeFirst '@' image) = second at h ⊢
  constructor
  · rintro rfl
    exact ⟨rfl, Iff.rfl⟩
  · rintro ⟨hhost, hslash⟩
    refine eq_of_hubHost hhost ?_
    unfold withNamespace at h
    by_cases hfirst : '/' ∈ withoutHub first
    · rwa [if_pos hfirst, if_pos (hslash.mp hfirst)] at h
    · rw [if_neg hfirst, if_neg fun hsecond ↦ hfirst (hslash.mpr hsecond)] at h
      exact List.append_cancel_left h

/-- **The three implementations agree** on a declared reference that locks alike and on a pair that
is spelled alike, and on no other. -/
theorem imageLocks_agree_iff (contentDigest : Text → Text → Text → Option Text)
    (declared image : Text) : (lockedImage contentDigest declared = .ok image →
      (serviceAccepts declared image ↔ LocksAlike declared)) ∧
    (serviceAccepts declared image →
      (sandboxAccepts declared image ↔ SpelledAlike declared image)) :=
  ⟨serviceAccepts_lockedImage_iff, sandboxAccepts_iff⟩

def sampleDigest : Text := "sha256:".toList ++ List.replicate 64 'a'

theorem imageLocks_agree_sample : let declared := "ghcr.io/owner/task:1".toList
    let image := "ghcr.io/owner/task@".toList ++ sampleDigest
    lockedImage (fun _ _ _ ↦ some sampleDigest) declared = .ok image ∧
      (serviceAccepts declared image ↔ LocksAlike declared) ∧
      (sandboxAccepts declared image ↔ SpelledAlike declared image) := by
  intro declared image
  have hlocked : lockedImage (fun _ _ _ ↦ some sampleDigest) declared = .ok image := by
    decide +kernel
  have hservice : serviceAccepts declared image := by decide +kernel
  exact ⟨hlocked, (imageLocks_agree_iff (fun _ _ _ ↦ some sampleDigest) declared image).1 hlocked,
    (imageLocks_agree_iff (fun _ _ _ ↦ some sampleDigest) declared image).2 hservice⟩

/-- A short name: the worker adds the namespace, the service compares with it added on both sides,
and the Sandbox environment compares the names as they are. -/
theorem exists_not_sandboxAccepts :
    ∃ (contentDigest : Text → Text → Text → Option Text) (declared image : Text),
      lockedImage contentDigest declared = .ok image ∧ serviceAccepts declared image ∧
        ¬ sandboxAccepts declared image :=
  ⟨fun _ _ _ ↦ some sampleDigest, "python:3.12".toList,
    "library/python@".toList ++ sampleDigest, by decide +kernel, by decide +kernel,
    by decide +kernel⟩

end HarborHF.Prepared
