import Mathlib.Algebra.GroupWithZero.Nat
import Mathlib.Data.List.Basic
import Mathlib.Tactic.Common

/-!
# Benchmark bundles

A prepared benchmark bundle is a manifest and a payload. The manifest lists the entries of the
benchmark with a digest of their contents, and the byte count and digest of the payload that packs
them. Two payloads may pack the same entries: the encoder decides.

Reading a manifest, writing it and unpacking a payload are parameters here. `verifyBenchmarkBundle`
is what every reader of a bundle does with its two files, and a `PreparedBenchmarkBundle` carries
that it succeeded.
-/

set_option autoImplicit false

namespace HarborHF.Benchmarks

abbrev Bytes : Type := List UInt8

inductive BundleEntry
  | directory (path : String)
  | file (path : String) (mode bytes : ℕ) (sha256 : String)
  deriving DecidableEq

/-- The bytes of a file entry. -/
def BundleEntry.fileBytes : BundleEntry → Option ℕ
  | directory _ => none
  | file _ _ bytes _ => some bytes

@[ext]
structure BundlePayload where
  bytes : ℕ
  sha256 : String
  deriving DecidableEq

/-- The digests of files and of lists of entries. Different contents have different digests. -/
class BundleDigests where
  sha256 : Bytes → String
  sha256_injective : Function.Injective sha256
  contentDigest : List BundleEntry → String
  contentDigest_injective : Function.Injective contentDigest

/-- `BenchmarkBundleManifest`, whose content digest is that of its entries. -/
@[ext]
structure BundleManifest [BundleDigests] where
  contentDigest : String
  entries : List BundleEntry
  payload : BundlePayload
  matching : contentDigest = BundleDigests.contentDigest entries
  deriving DecidableEq

/-- The encoding of manifests as canonical JSON, their validation, and the extraction of a payload
into a tree, which raises unless the tree has the given entries. -/
class BundleFormat extends BundleDigests where
  manifestBytes : BundleManifest → Bytes
  readManifest : Bytes → Option BundleManifest
  extract : Bytes → List BundleEntry → Except String Unit

open BundleDigests BundleFormat

def maxManifestBytes : ℕ := 256 * 1024 ^ 2

variable [BundleFormat]

/-- `validate_benchmark_bundle` on the two files of a bundle. -/
def validateBenchmarkBundle (manifestFile payloadFile : Bytes) : Except String BundleManifest :=
  if maxManifestBytes < manifestFile.length then
    .error "benchmark bundle manifest exceeds its byte limit"
  else
    match readManifest manifestFile with
    | none => .error "benchmark bundle manifest is invalid"
    | some manifest =>
      if manifestFile ≠ manifestBytes manifest then
        .error "benchmark bundle manifest is not canonical JSON"
      else if payloadFile.length ≠ manifest.payload.bytes then
        .error "benchmark bundle payload byte count does not match"
      else if sha256 payloadFile ≠ manifest.payload.sha256 then
        .error "benchmark bundle payload digest does not match"
      else .ok manifest

/-- `verify_benchmark_bundle`. -/
def verifyBenchmarkBundle (manifestFile payloadFile : Bytes) : Except String BundleManifest := do
  let manifest ← validateBenchmarkBundle manifestFile payloadFile
  extract payloadFile manifest.entries
  return manifest

/-- A bundle that was built and verified. -/
structure PreparedBenchmarkBundle where
  manifest : BundleManifest
  manifestFile : Bytes
  payloadFile : Bytes
  verified : verifyBenchmarkBundle manifestFile payloadFile = .ok manifest

/-! ### What a verified bundle is -/

variable {manifestFile payloadFile : Bytes} {manifest : BundleManifest}

theorem validateBenchmarkBundle_eq_ok :
    validateBenchmarkBundle manifestFile payloadFile = .ok manifest ↔
      manifestFile.length ≤ maxManifestBytes ∧ readManifest manifestFile = some manifest ∧
        manifestFile = manifestBytes manifest ∧ payloadFile.length = manifest.payload.bytes ∧
          sha256 payloadFile = manifest.payload.sha256 := by
  unfold validateBenchmarkBundle
  constructor
  · intro h
    split_ifs at h with hlimit
    cases hread : readManifest manifestFile with
    | none =>
      rw [hread] at h
      cases h
    | some read =>
      rw [hread] at h
      dsimp only at h
      split_ifs at h with hcanonical hbytes hdigest
      obtain rfl := Except.ok.inj h
      exact ⟨Nat.not_lt.mp hlimit, rfl, not_not.mp hcanonical, not_not.mp hbytes, not_not.mp hdigest⟩
  · rintro ⟨hlimit, hread, hcanonical, hbytes, hdigest⟩
    rw [if_neg (Nat.not_lt.mpr hlimit), hread]
    dsimp only
    rw [if_neg (not_not.mpr hcanonical), if_neg (not_not.mpr hbytes), if_neg (not_not.mpr hdigest)]

theorem verifyBenchmarkBundle_eq_ok :
    verifyBenchmarkBundle manifestFile payloadFile = .ok manifest ↔
      validateBenchmarkBundle manifestFile payloadFile = .ok manifest ∧
        extract payloadFile manifest.entries = .ok () := by
  unfold verifyBenchmarkBundle
  cases hvalid : validateBenchmarkBundle manifestFile payloadFile with
  | error error => exact ⟨nofun, nofun⟩
  | ok read =>
    simp only [bind, Except.bind]
    constructor
    · intro h
      cases hextract : extract payloadFile read.entries with
      | error error =>
        rw [hextract] at h
        cases h
      | ok _ =>
        rw [hextract] at h
        obtain rfl := Except.ok.inj h
        exact ⟨rfl, hextract⟩
    · rintro ⟨hread, hextract⟩
      obtain rfl := Except.ok.inj hread
      rw [hextract]
      rfl

namespace PreparedBenchmarkBundle

variable (bundle other : PreparedBenchmarkBundle)

theorem valid : readManifest bundle.manifestFile = some bundle.manifest ∧
    bundle.manifestFile = manifestBytes bundle.manifest ∧
    bundle.payloadFile.length = bundle.manifest.payload.bytes ∧
    sha256 bundle.payloadFile = bundle.manifest.payload.sha256 :=
  (validateBenchmarkBundle_eq_ok.mp (verifyBenchmarkBundle_eq_ok.mp bundle.verified).1).2

variable {bundle other}

theorem manifest_eq (hcontent : bundle.manifest.contentDigest = other.manifest.contentDigest)
    (hpayload : bundle.payloadFile = other.payloadFile) : bundle.manifest = other.manifest := by
  obtain ⟨-, -, hbytes, hsha256⟩ := bundle.valid
  obtain ⟨-, -, hbytes', hsha256'⟩ := other.valid
  have hentries : bundle.manifest.entries = other.manifest.entries :=
    BundleDigests.contentDigest_injective
      (bundle.manifest.matching.symm.trans (hcontent.trans other.manifest.matching))
  have hsame : bundle.manifest.payload = other.manifest.payload := by
    rw [hpayload] at hbytes hsha256
    exact BundlePayload.ext (hbytes.symm.trans hbytes') (hsha256.symm.trans hsha256')
  exact BundleManifest.ext hcontent hentries hsame

theorem payloadFile_eq (h : bundle.manifestFile = other.manifestFile) :
    bundle.payloadFile = other.payloadFile := by
  obtain ⟨hread, -, -, hsha256⟩ := bundle.valid
  obtain ⟨hread', -, -, hsha256'⟩ := other.valid
  rw [h, hread'] at hread
  have hsame := Option.some.inj hread
  exact BundleDigests.sha256_injective (hsha256.trans (by rw [hsha256', hsame]))

end PreparedBenchmarkBundle

end HarborHF.Benchmarks
