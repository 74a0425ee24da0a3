import HarborHF.Control.Records

/-!
# The immutable object store

The durable state is a store of immutable objects. `ObjectStore` keeps the control records in the
order they were created, the evidence objects workers uploaded and the stored results of Sandbox
actions. `createRecord` is `store.create` at a record's own key: an object is created once, creating
it again with the same content answers that it was there, and with other content is an immutable
conflict.

`verifyAttemptEvidence` is the check of the evidence an attempt receipt names. Objects are only
added, so a check that passed keeps passing.
-/

set_option autoImplicit false

namespace HarborHF.Control

/-- One chunk a worker's evidence manifest lists. -/
structure EvidenceReference where
  path : String
  digest : String
  size : ℕ
  deriving DecidableEq

/-- The manifest of a worker's evidence. -/
structure WorkerEvidenceManifest where
  campaignId : String
  actionId : String
  taskId : String
  objects : List EvidenceReference
  deriving DecidableEq

/-- What the bytes of a stored object read as: no JSON text, a text that is not canonical, a
canonical text that is no manifest, or a manifest. -/
inductive EvidenceContent
  | notJson | notCanonical | notManifest
  | manifest (manifest : WorkerEvidenceManifest)
  deriving DecidableEq

/-- A stored object: its path, the digest and length of its bytes, and what they read as. -/
structure StoredObject where
  path : String
  digest : String
  size : ℕ
  content : EvidenceContent
  deriving DecidableEq

/-- The result object of a Sandbox action: the external result its receipt is written from. The
caller's own part of the object is opaque. -/
structure SandboxResult where
  campaignId : String
  actionId : String
  outcome : ActionOutcome
  observedState : String
  resourceId : Option String
  costMicrousd : Option ℕ
  result : String
  deriving DecidableEq

/-- The object store. -/
structure ObjectStore where
  records : List Record
  evidence : List StoredObject
  results : List SandboxResult
  deriving DecidableEq

namespace ObjectStore

variable (store : ObjectStore)

/-- The record stored under a key (`readRecord`). -/
def readRecord (key : ObjectKey) : Option Record := store.records.find? fun record ↦ record.key = key

/-- Create a record's object: whether it was created, or `none` for an immutable conflict. -/
def createRecord (record : Record) : Option (Bool × ObjectStore) :=
  match store.readRecord record.key with
  | none => some (true, { store with records := store.records ++ [record] })
  | some existing => if existing = record then some (false, store) else none

/-- The stored result of a Sandbox action. -/
def readResult (campaignId actionId : String) : Option SandboxResult :=
  store.results.find? fun stored ↦ stored.campaignId = campaignId ∧ stored.actionId = actionId

/-- Create the result object of a Sandbox action, `none` for an immutable conflict. -/
def createResult (result : SandboxResult) : Option ObjectStore :=
  match store.readResult result.campaignId result.actionId with
  | none => some { store with results := store.results ++ [result] }
  | some existing => if existing = result then some store else none

/-- Upload an evidence object, `none` for an immutable conflict. -/
def createEvidence (object : StoredObject) : Option ObjectStore :=
  match store.evidence.find? fun other ↦ other.path = object.path with
  | none => some { store with evidence := store.evidence ++ [object] }
  | some existing => if existing = object then some store else none

end ObjectStore

/-! ### Evidence -/

/-- Why an attempt's evidence is refused. -/
inductive EvidenceError
  | missing | digestMismatch | sizeMismatch | pathOutsideScope | notJson | notCanonical
  | notManifest | identityMismatch | objectPathInvalid
  deriving DecidableEq

/-- A digest without its `sha256:` label. -/
def digestHex (digest : String) : String := String.ofList (digest.toList.drop 7)

/-- Where a worker's evidence object is stored. -/
def workerEvidenceObjectPath (campaignId actionId taskId digest : String) : String :=
  "evidence/schema=v1/campaigns/" ++ campaignId ++ "/actions/" ++ actionId ++ "/tasks/" ++ taskId ++
    "/objects/" ++ digestHex digest

section

variable [Digests] (store : ObjectStore)

/-- The object at a path: a control record under its own path, or an evidence object. -/
def ObjectStore.readObject (path : String) : Option StoredObject :=
  match store.records.find? fun record ↦ record.key.path = path with
  | some record =>
    some ⟨path, recordDigest record, (canonicalJson record).length, .notManifest⟩
  | none => store.evidence.find? fun object ↦ object.path = path

/-- Read an object and compare its digest, and its size when one is expected. -/
def readVerified (path expectedDigest : String) (expectedSize : Option ℕ) :
    Except EvidenceError StoredObject :=
  match store.readObject path with
  | none => .error .missing
  | some object =>
    if object.digest ≠ expectedDigest then .error .digestMismatch
    else if expectedSize.any fun size ↦ object.size ≠ size then .error .sizeMismatch
    else .ok object

/-- Check one chunk of a worker's evidence. -/
def verifyEvidenceObject (campaignId actionId taskId evidenceDigest : String)
    (reference : EvidenceReference) : Except EvidenceError Unit :=
  if reference.path ≠ workerEvidenceObjectPath campaignId actionId taskId reference.digest ∨
      reference.digest = evidenceDigest then .error .objectPathInvalid
  else (readVerified store reference.path reference.digest (some reference.size)).map fun _ ↦ ()

/-- Check a worker's evidence: the manifest is where it belongs, names this attempt, and each object
it lists is stored as listed. -/
def verifyWorkerEvidence (record : AttemptReceipt) : Except EvidenceError Unit :=
  if record.evidencePath ≠ workerEvidenceObjectPath record.campaignId record.actionId record.taskId
      record.evidenceDigest then .error .pathOutsideScope
  else
    match readVerified store record.evidencePath record.evidenceDigest none with
    | .error error => .error error
    | .ok object =>
      match object.content with
      | .notJson => .error .notJson
      | .notCanonical => .error .notCanonical
      | .notManifest => .error .notManifest
      | .manifest manifest =>
        if manifest.campaignId ≠ record.campaignId ∨ manifest.actionId ≠ record.actionId ∨
            manifest.taskId ≠ record.taskId then .error .identityMismatch
        else manifest.objects.forM
          (verifyEvidenceObject store record.campaignId record.actionId record.taskId
            record.evidenceDigest)

/-- Check the evidence of an attempt receipt; records of other kinds and migrated receipts have
none. -/
def verifyAttemptEvidence : Record → Except EvidenceError Unit
  | .attemptReceipt record =>
    if record.actor.role = .migration then .ok ()
    else if record.actor.subject = "harbor-hf-control" then
      (readVerified store record.evidencePath record.evidenceDigest none).map fun _ ↦ ()
    else verifyWorkerEvidence store record
  | _ => .ok ()

end

end HarborHF.Control
