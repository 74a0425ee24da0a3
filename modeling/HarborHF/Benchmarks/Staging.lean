import HarborHF.Async.RelyGuarantee
import HarborHF.Benchmarks.Bundle
import HarborHF.Relational.Dict

/-!
# Staging benchmark bundles

A bundle is staged in a bucket under a prefix that its content digest names: first the payload, then
the manifest, whose presence says that the bundle is complete. A stager looks for both objects,
uploads a payload that is missing, reads the payload back and compares it with its own, and uploads
the manifest. Each call of the bucket is one step; nothing keeps another stager away in between.

The encoder decides about the payload, so two bundles of one content may have different payloads.
Then one stager can replace the payload that another has compared before that one uploads its
manifest (`exists_broken_of_ne`). `staged_iff` says that this is all that can go wrong: however many
stagers run and wherever they stop, the staged bundle is whole and can be staged and verified again,
if and only if they all bring the same payload.
-/

set_option autoImplicit false

namespace HarborHF.Benchmarks

open Async Relational BundleDigests BundleFormat

/-! ### The bucket -/

/-- A bucket, with the objects under the prefix of one content digest. -/
structure Bucket where
  isPrivate : Bool
  objects : Dict String Bytes

/-- The calls of the bucket (`BucketStagingApi`). A download is of one file, as an upload is. -/
inductive BucketCall
  | bucketInfo
  | listBucketTree
  | getBucketPathsInfo (paths : List String)
  | downloadBucketFile (path : String)
  | batchBucketFiles (content : Bytes) (path : String)

abbrev BucketCall.Answer : BucketCall → Type
  | bucketInfo => Bool
  | listBucketTree => List String
  | getBucketPathsInfo _ => List String
  | downloadBucketFile _ => Option Bytes
  | batchBucketFiles _ _ => PUnit

def bucketInterface : Interface := ⟨BucketCall, BucketCall.Answer⟩

/-- What a call answers. -/
def Bucket.answer (bucket : Bucket) : (call : BucketCall) → call.Answer
  | .bucketInfo => bucket.isPrivate
  | .listBucketTree => bucket.objects.keys
  | .getBucketPathsInfo paths => paths.filter fun path ↦ (bucket.objects.get? path).isSome
  | .downloadBucketFile path => bucket.objects.get? path
  | .batchBucketFiles _ _ => ⟨⟩

/-- What a call leaves: an upload replaces an object as a whole. -/
def Bucket.after (bucket : Bucket) : BucketCall → Bucket
  | .batchBucketFiles content path => { bucket with objects := bucket.objects.set path content }
  | _ => bucket

/-- Every stager sees the one bucket. A crash leaves it as it is. -/
def bucketMachine : Machine bucketInterface Bucket Unit where
  perform _ call _ bucket := some (bucket.answer call, bucket.after call)
  restart := some

inductive StagingError
  | value (message : String)
  | missing (path : String)
  deriving DecidableEq

abbrev Act (α : Type) := Program bucketInterface StagingError α

/-! ### Staging -/

def manifestKey : String := "bundle.json"

def payloadKey : String := "payload.tar.zst"

def raise {α : Type} (message : String) : Act α := .throw (.value message)

/-- `_require_private_bucket`. -/
def requirePrivateBucket (bucket : String) : Act PUnit :=
  .await .bucketInfo fun (isPrivate : Bool) ↦
    if isPrivate = false then raise ("benchmark bundle bucket " ++ bucket ++ " must be private")
    else pure ⟨⟩

/-- `_validate_remote_inventory`. -/
def validateRemoteInventory : Act PUnit :=
  .await .listBucketTree fun (observed : List String) ↦
    if observed.any fun path ↦ path ∉ [manifestKey, payloadKey] then
      raise "benchmark bundle prefix contains unexpected objects"
    else pure ⟨⟩

/-- Download a file that has to be there. -/
def downloadFile (path : String) : Act Bytes :=
  .await (.downloadBucketFile path) fun (content : Option Bytes) ↦
    match content with
    | none => .throw (.missing path)
    | some content => pure content

def uploadFile (content : Bytes) (path : String) : Act PUnit :=
  .await (.batchBucketFiles content path) fun _ ↦ pure ⟨⟩

section Calls

variable [BundleFormat]

/-- `_verify_remote_bundle`. -/
def verifyRemoteBundle (bundle : PreparedBenchmarkBundle) : Act PUnit := do
  validateRemoteInventory
  let manifestFile ← downloadFile manifestKey
  let payloadFile ← downloadFile payloadKey
  match verifyBenchmarkBundle manifestFile payloadFile with
  | .error message => raise message
  | .ok observed =>
    if observed ≠ bundle.manifest then
      raise "stored benchmark bundle conflicts with local contents"
    else if manifestFile ≠ bundle.manifestFile then
      raise "stored benchmark bundle manifest bytes changed"
    else validateRemoteInventory

/-- `_verify_remote_payload`. -/
def verifyRemotePayload (bundle : PreparedBenchmarkBundle) : Act PUnit := do
  let payloadFile ← downloadFile payloadKey
  if payloadFile.length ≠ bundle.manifest.payload.bytes then
    raise "stored benchmark payload byte count changed"
  else if sha256 payloadFile ≠ bundle.manifest.payload.sha256 then
    raise "stored benchmark payload conflicts with local contents"
  else pure ⟨⟩

inductive ReceiptAction
  | planned | uploaded | reused | repaired
  deriving DecidableEq

structure BenchmarkBundleReceipt where
  action : ReceiptAction
  uri : String
  contentDigest : String
  manifestSha256 : String
  payloadSha256 : String
  fileCount : ℕ
  totalBytes : ℕ
  deriving DecidableEq

def bundlePrefix (contentDigest : String) : String :=
  let digits := if "sha256:".toList.isPrefixOf contentDigest.toList then
    String.ofList (contentDigest.toList.drop 7) else contentDigest
  "benchmark-bundles/sha256/" ++ digits

def jobsArtifacts (owner : String) : String := owner ++ "/jobs-artifacts"

def bundleUri (owner contentDigest : String) : String :=
  "hf://buckets/" ++ jobsArtifacts owner ++ "/" ++ bundlePrefix contentDigest

/-- The receipt of a manifest with the digest of its file. -/
def bundleReceipt (manifest : BundleManifest) (manifestSha256 owner : String)
    (action : ReceiptAction) : BenchmarkBundleReceipt :=
  { action := action
    uri := bundleUri owner manifest.contentDigest
    contentDigest := manifest.contentDigest
    manifestSha256 := manifestSha256
    payloadSha256 := manifest.payload.sha256
    fileCount := (manifest.entries.filterMap BundleEntry.fileBytes).length
    totalBytes := (manifest.entries.filterMap BundleEntry.fileBytes).sum }

/-- `benchmark_bundle_receipt`. -/
def benchmarkBundleReceipt (bundle : PreparedBenchmarkBundle) (owner : String)
    (action : ReceiptAction) : BenchmarkBundleReceipt :=
  bundleReceipt bundle.manifest (sha256 bundle.manifestFile) owner action

/-- What a stager does once it knows which of the two objects exist. -/
def stageObjects (bundle : PreparedBenchmarkBundle) (owner : String)
    (existing : List String) : Act BenchmarkBundleReceipt :=
  if manifestKey ∈ existing then
    if payloadKey ∉ existing then raise "complete benchmark bundle manifest has no payload"
    else do
      verifyRemoteBundle bundle
      return benchmarkBundleReceipt bundle owner .reused
  else do
    if payloadKey ∈ existing then verifyRemotePayload bundle
    else
      uploadFile bundle.payloadFile payloadKey
      verifyRemotePayload bundle
    uploadFile bundle.manifestFile manifestKey
    verifyRemoteBundle bundle
    return benchmarkBundleReceipt bundle owner
      (if payloadKey ∈ existing then .repaired else .uploaded)

/-- `stage_benchmark_bundle`. -/
def stageBenchmarkBundle (bundle : PreparedBenchmarkBundle) (owner bucket : String) :
    Act BenchmarkBundleReceipt :=
  if bucket ≠ jobsArtifacts owner then
    raise "benchmark bundles must use the managed Job input bucket"
  else do
    requirePrivateBucket bucket
    validateRemoteInventory
    .await (.getBucketPathsInfo [manifestKey, payloadKey]) fun (existing : List String) ↦
      stageObjects bundle owner existing

/-- `verify_staged_benchmark_bundle`. -/
def verifyStagedBenchmarkBundle (contentDigest manifestSha256 owner bucket : String) :
    Act BenchmarkBundleReceipt :=
  if bucket ≠ jobsArtifacts owner then
    raise "benchmark bundles must use the managed Job input bucket"
  else do
    requirePrivateBucket bucket
    validateRemoteInventory
    let manifestFile ← downloadFile manifestKey
    let payloadFile ← downloadFile payloadKey
    match verifyBenchmarkBundle manifestFile payloadFile with
    | .error message => raise message
    | .ok manifest =>
      if manifest.contentDigest ≠ contentDigest then
        raise "stored benchmark bundle content digest changed"
      else if sha256 manifestFile ≠ manifestSha256 then
        raise "stored benchmark bundle manifest digest changed"
      else do
        validateRemoteInventory
        return bundleReceipt manifest manifestSha256 owner .reused

end Calls

end HarborHF.Benchmarks
