import HarborHF.Benchmarks.Staging
import HarborHF.Encodings.Pairs

/-!
# Staged bundles are whole when stagers agree

A set of bundles that share the payload of one content puts at most two contents into the bucket: the
payload and its manifest, the manifest only over the payload (`Holds`). Every stager and every reader
of the stored manifest keeps that and meets no error, wherever the others run (`safe_stage`,
`safe_verifyStaged`). With two payloads of one content, the stager of the second replaces the payload
of the first between its comparison and its manifest (`exists_broken_of_ne`).
-/

set_option autoImplicit false

namespace HarborHF.Benchmarks

open Async Relational BundleDigests BundleFormat

section Format

variable [BundleFormat]

/-! ### Whole bundles -/

/-- The manifest in the bucket has its payload beside it. -/
def Whole (bucket : Bucket) : Prop :=
  ∀ stored, bucket.objects.get? manifestKey = some stored →
    ∃ manifest payload, readManifest stored = some manifest ∧
      bucket.objects.get? payloadKey = some payload ∧ payload.length = manifest.payload.bytes ∧
      sha256 payload = manifest.payload.sha256

/-- The calls on the manifest that is stored in a bucket: staging a bundle with that manifest, and
verifying it by its digests. -/
inductive StoredCall (owner : String) (bucket : Bucket) : Act BenchmarkBundleReceipt → Prop
  | stage {bundle : PreparedBenchmarkBundle}
      (hstored : bucket.objects.get? manifestKey = some bundle.manifestFile) :
      StoredCall owner bucket (stageBenchmarkBundle bundle owner (jobsArtifacts owner))
  | verify {stored : Bytes} {manifest : BundleManifest}
      (hstored : bucket.objects.get? manifestKey = some stored)
      (hread : readManifest stored = some manifest) :
      StoredCall owner bucket (verifyStagedBenchmarkBundle manifest.contentDigest (sha256 stored)
        owner (jobsArtifacts owner))

/-- A thread that makes a call and forgets its receipt. -/
def calling (call : Act BenchmarkBundleReceipt) : Act Unit := call >>= fun _ ↦ pure ()

/-- The calls of a run: bundles of a set are staged, and stored bundles are verified. -/
inductive Calls (bundles : Set PreparedBenchmarkBundle) : Unit → Act Unit → Prop
  | stage {bundle : PreparedBenchmarkBundle} (hbundle : bundle ∈ bundles) (owner bucket : String) :
      Calls bundles () (calling (stageBenchmarkBundle bundle owner bucket))
  | verify (contentDigest manifestSha256 owner bucket : String) :
      Calls bundles ()
        (calling (verifyStagedBenchmarkBundle contentDigest manifestSha256 owner bucket))

abbrev StagingConfig : Type := Config bucketInterface StagingError Unit Bucket

/-- No call excludes another. -/
def independent : Unit → Unit → Bool := fun _ _ ↦ false

/-- A private bucket without the bundle. -/
def Unstaged (bucket : Bucket) : Prop := bucket.isPrivate = true ∧ bucket.objects = []

/-- What is reached with stagers of a set of bundles and readers, from a bucket without the bundle. -/
abbrev Staged (bundles : Set PreparedBenchmarkBundle) : StagingConfig → Prop :=
  Reachable bucketMachine independent Unstaged (Calls bundles) fun _ _ _ ↦ True

/-- The staged bundle is whole, and no later call on the stored manifest raises, whatever runs beside
it. -/
structure Intact (bundles : Set PreparedBenchmarkBundle) (config : StagingConfig) : Prop where
  whole : Whole config.state
  later : ∀ owner call, StoredCall owner config.state call →
    ∀ first, config.step bucketMachine independent (.spawn () (calling call)) = some first →
      ∀ last, Continues bucketMachine independent (Calls bundles) (fun _ _ _ ↦ True) first last →
        ∀ error, last.threads[config.threads.length]? ≠ some ⟨(), .throw error⟩

/-! ### What agreeing stagers keep -/

/-- A private bucket with no other objects than the files of bundles of a set, the manifest only with
its payload. -/
structure Holds (bundles : Set PreparedBenchmarkBundle) (bucket : Bucket) : Prop where
  isPrivate : bucket.isPrivate = true
  keys : ∀ key ∈ bucket.objects.keys, key = manifestKey ∨ key = payloadKey
  payload : ∀ content, bucket.objects.get? payloadKey = some content →
    ∃ bundle ∈ bundles, content = bundle.payloadFile
  manifest : ∀ content, bucket.objects.get? manifestKey = some content →
    ∃ bundle ∈ bundles, content = bundle.manifestFile ∧
      bucket.objects.get? payloadKey = some bundle.payloadFile

/-- Objects stay what they are. -/
def Kept (before after : Bucket) : Prop :=
  ∀ key content, before.objects.get? key = some content → after.objects.get? key = some content

omit [BundleFormat] in
theorem Kept.refl (bucket : Bucket) : Kept bucket bucket := fun _ _ h ↦ h

omit [BundleFormat] in
theorem Kept.trans {first middle last : Bucket} (h : Kept first middle) (h' : Kept middle last) :
    Kept first last := fun key content hfirst ↦ h' key content (h key content hfirst)

/-- Every thread relies on the objects staying what they are, and keeps them. -/
def keeping : Contract bucketInterface Bucket where
  rely := Kept
  guar := Kept
  ok _ _ := True
  rely_refl := Kept.refl
  rely_trans := Kept.trans

/-- The bundles of a set have the files of a bundle, and there is one. -/
structure Agrees (bundles : Set PreparedBenchmarkBundle) (bundle : PreparedBenchmarkBundle) :
    Prop where
  like : ∃ other ∈ bundles, other.payloadFile = bundle.payloadFile ∧
    other.manifestFile = bundle.manifestFile
  same : ∀ other ∈ bundles, other.payloadFile = bundle.payloadFile ∧
    other.manifestFile = bundle.manifestFile

section Agreeing

variable {bundles : Set PreparedBenchmarkBundle} {bundle : PreparedBenchmarkBundle}
  {bucket : Bucket}

theorem Holds.payload_eq (hagrees : Agrees bundles bundle) (h : Holds bundles bucket)
    {content : Bytes} (hcontent : bucket.objects.get? payloadKey = some content) :
    content = bundle.payloadFile := by
  obtain ⟨other, hother, rfl⟩ := h.payload content hcontent
  exact (hagrees.same other hother).1

theorem Holds.manifest_eq (hagrees : Agrees bundles bundle) (h : Holds bundles bucket)
    {content : Bytes} (hcontent : bucket.objects.get? manifestKey = some content) :
    content = bundle.manifestFile ∧
      bucket.objects.get? payloadKey = some bundle.payloadFile := by
  obtain ⟨other, hother, rfl, hpayload⟩ := h.manifest content hcontent
  obtain ⟨hsame, hfile⟩ := hagrees.same other hother
  exact ⟨hfile, hsame ▸ hpayload⟩

theorem Holds.whole (h : Holds bundles bucket) : Whole bucket := by
  intro stored hstored
  obtain ⟨bundle, -, rfl, hpayload⟩ := h.manifest stored hstored
  obtain ⟨hread, -, hbytes, hsha256⟩ := bundle.valid
  exact ⟨bundle.manifest, bundle.payloadFile, hread, hpayload, hbytes, hsha256⟩

omit [BundleFormat] in
theorem keys_set (objects : Dict String Bytes) (key : String) (content : Bytes) :
    ∀ other ∈ (objects.set key content).keys, other = key ∨ other ∈ objects.keys := by
  intro other hother
  rw [← Dict.get?_isSome_iff] at hother
  by_cases heq : other = key
  · exact .inl heq
  · rw [Dict.get?_set_of_ne heq] at hother
    exact .inr (Dict.get?_isSome_iff.mp hother)

omit [BundleFormat] in
theorem kept_set {key : String} {content : Bytes}
    (h : ∀ old, bucket.objects.get? key = some old → old = content) :
    Kept bucket { bucket with objects := bucket.objects.set key content } := by
  intro other old hold
  by_cases heq : other = key
  · subst heq
    rw [h old hold]
    exact Dict.get?_set_self
  · exact (Dict.get?_set_of_ne heq).trans hold

theorem Holds.set_payload (hagrees : Agrees bundles bundle) (h : Holds bundles bucket) :
    Holds bundles { bucket with objects := bucket.objects.set payloadKey bundle.payloadFile } := by
  obtain ⟨other, hother, hpayload, hmanifest⟩ := hagrees.like
  refine ⟨h.isPrivate, fun key hkey ↦ ?_, fun content hcontent ↦ ?_, fun content hcontent ↦ ?_⟩
  · rcases keys_set _ _ _ key hkey with heq | hold
    · exact .inr heq
    · exact h.keys key hold
  · rw [Dict.get?_set_self] at hcontent
    exact ⟨other, hother, (Option.some.inj hcontent).symm.trans hpayload.symm⟩
  · rw [Dict.get?_set_of_ne (by decide)] at hcontent
    obtain ⟨rfl, -⟩ := h.manifest_eq hagrees hcontent
    exact ⟨other, hother, hmanifest.symm, hpayload.symm ▸ Dict.get?_set_self⟩

theorem Holds.set_manifest (hagrees : Agrees bundles bundle) (h : Holds bundles bucket)
    (hstaged : bucket.objects.get? payloadKey = some bundle.payloadFile) :
    Holds bundles { bucket with objects := bucket.objects.set manifestKey bundle.manifestFile } := by
  obtain ⟨other, hother, hpayload, hmanifest⟩ := hagrees.like
  refine ⟨h.isPrivate, fun key hkey ↦ ?_, fun content hcontent ↦ ?_, fun content hcontent ↦ ?_⟩
  · rcases keys_set _ _ _ key hkey with heq | hold
    · exact .inl heq
    · exact h.keys key hold
  · rw [Dict.get?_set_of_ne (by decide)] at hcontent
    exact h.payload content hcontent
  · rw [Dict.get?_set_self] at hcontent
    refine ⟨other, hother, (Option.some.inj hcontent).symm.trans hmanifest.symm, ?_⟩
    exact (Dict.get?_set_of_ne (by decide)).trans (hpayload ▸ hstaged)

/-! ### Safe calls -/

variable {thread : ℕ} {α : Type} {post : α → Bucket → Prop} {fail : StagingError → Bucket → Prop}

theorem safe_read {call : BucketCall} {resume : call.Answer → Act α}
    (hafter : ∀ bucket : Bucket, bucket.after call = bucket)
    (h : ∀ before, Kept bucket before → Holds bundles before →
      Safe bucketMachine (Holds bundles) thread keeping (resume (before.answer call)) post fail
        before) : Safe bucketMachine (Holds bundles) thread keeping
      (.await call resume : Act α) post fail bucket := by
  refine safe_await fun before hrely hinv _ choice answer after hperform ↦ ?_
  obtain ⟨rfl, rfl⟩ := Prod.mk.inj (Option.some.inj hperform)
  rw [hafter]
  exact ⟨Kept.refl _, hinv, h before hrely hinv⟩

section Steps

variable {next : PUnit → Act α}

theorem safe_requirePrivateBucket {name : String}
    (h : ∀ before, Kept bucket before → Holds bundles before →
      Safe bucketMachine (Holds bundles) thread keeping (next ⟨⟩) post fail before) :
    Safe bucketMachine (Holds bundles) thread keeping (requirePrivateBucket name >>= next) post fail
      bucket := by
  refine safe_read (fun _ ↦ rfl) fun before hrely hinv ↦ ?_
  have hprivate : before.answer .bucketInfo = true := hinv.isPrivate
  rw [hprivate]
  exact h before hrely hinv

theorem safe_validateRemoteInventory (h : ∀ before, Kept bucket before → Holds bundles before →
      Safe bucketMachine (Holds bundles) thread keeping (next ⟨⟩) post fail before) :
    Safe bucketMachine (Holds bundles) thread keeping (validateRemoteInventory >>= next) post fail
      bucket := by
  refine safe_read (fun _ ↦ rfl) fun before hrely hinv ↦ ?_
  have hexpected : (before.objects.keys.any fun path ↦ path ∉ [manifestKey, payloadKey]) = false := by
    rw [List.any_eq_false]
    intro key hkey
    rcases hinv.keys key hkey with rfl | rfl <;> decide
  simp only [Bucket.answer, hexpected]
  exact h before hrely hinv

theorem safe_downloadFile {path : String} {content : Bytes} {next : Bytes → Act α}
    (hcontent : bucket.objects.get? path = some content)
    (h : ∀ before, Kept bucket before → Holds bundles before →
      Safe bucketMachine (Holds bundles) thread keeping (next content) post fail before) :
    Safe bucketMachine (Holds bundles) thread keeping (downloadFile path >>= next) post fail
      bucket := by
  refine safe_read (fun _ ↦ rfl) fun before hrely hinv ↦ ?_
  have hread : before.answer (.downloadBucketFile path) = some content := hrely path content hcontent
  rw [hread]
  exact h before hrely hinv

/-- An upload of a file that is there already or still missing. -/
theorem safe_uploadFile {key : String} {content : Bytes}
    (hold : ∀ before, Kept bucket before → Holds bundles before →
      (∀ old, before.objects.get? key = some old → old = content) ∧
        Holds bundles { before with objects := before.objects.set key content })
    (h : ∀ after, Kept bucket after → after.objects.get? key = some content →
      Safe bucketMachine (Holds bundles) thread keeping (next ⟨⟩) post fail after) :
    Safe bucketMachine (Holds bundles) thread keeping (uploadFile content key >>= next) post fail
      bucket := by
  refine safe_await fun before hrely hinv _ choice answer after hperform ↦ ?_
  obtain ⟨rfl, rfl⟩ := Prod.mk.inj (Option.some.inj hperform)
  obtain ⟨hsame, hholds⟩ := hold before hrely hinv
  exact ⟨kept_set hsame, hholds, h _ (hrely.trans (kept_set hsame)) Dict.get?_set_self⟩

theorem safe_verifyRemotePayload (hpayload : bucket.objects.get? payloadKey = some bundle.payloadFile)
    (h : ∀ before, Kept bucket before → Holds bundles before →
      Safe bucketMachine (Holds bundles) thread keeping (next ⟨⟩) post fail before) :
    Safe bucketMachine (Holds bundles) thread keeping (verifyRemotePayload bundle >>= next) post fail
      bucket := by
  obtain ⟨-, -, hbytes, hsha256⟩ := bundle.valid
  unfold verifyRemotePayload
  rw [bind_assoc]
  refine safe_downloadFile hpayload fun before hrely hinv ↦ ?_
  rw [if_neg (not_not.mpr hbytes), if_neg (not_not.mpr hsha256)]
  exact h before hrely hinv

theorem safe_verifyRemoteBundle
    (hmanifest : bucket.objects.get? manifestKey = some bundle.manifestFile)
    (hpayload : bucket.objects.get? payloadKey = some bundle.payloadFile)
    (h : ∀ before, Kept bucket before → Holds bundles before →
      Safe bucketMachine (Holds bundles) thread keeping (next ⟨⟩) post fail before) :
    Safe bucketMachine (Holds bundles) thread keeping (verifyRemoteBundle bundle >>= next) post fail
      bucket := by
  unfold verifyRemoteBundle
  simp only [bind_assoc]
  refine safe_validateRemoteInventory fun first hfirst _ ↦ ?_
  refine safe_downloadFile (hfirst _ _ hmanifest) fun second hsecond _ ↦ ?_
  refine safe_downloadFile (hsecond _ _ (hfirst _ _ hpayload)) fun third hthird _ ↦ ?_
  rw [bundle.verified]
  dsimp only
  rw [if_neg (not_not.mpr rfl), if_neg (not_not.mpr rfl)]
  exact safe_validateRemoteInventory fun last hlast hinv ↦
    h last (((hfirst.trans hsecond).trans hthird).trans hlast) hinv

end Steps

/-! ### Agreeing calls -/

theorem safe_done (receipt : BenchmarkBundleReceipt) :
    Safe bucketMachine (Holds bundles) thread keeping
      ((pure receipt : Act BenchmarkBundleReceipt) >>= fun _ ↦ (pure () : Act Unit))
      (fun _ _ ↦ True) (fun _ _ ↦ False) bucket := fun _ _ _ ↦ trivial

theorem safe_uploadManifest (hagrees : Agrees bundles bundle)
    (hstaged : bucket.objects.get? payloadKey = some bundle.payloadFile)
    (receipt : BenchmarkBundleReceipt) : Safe bucketMachine (Holds bundles) thread keeping
      (uploadFile bundle.manifestFile manifestKey >>= fun _ ↦ verifyRemoteBundle bundle >>= fun _ ↦
        (pure receipt : Act BenchmarkBundleReceipt) >>= fun _ ↦ (pure () : Act Unit))
      (fun _ _ ↦ True) (fun _ _ ↦ False) bucket := by
  refine safe_uploadFile (fun before hrely hbefore ↦ ⟨fun old hold ↦
    (hbefore.manifest_eq hagrees hold).1, hbefore.set_manifest hagrees (hrely _ _ hstaged)⟩) ?_
  exact fun after hafter huploaded ↦
    safe_verifyRemoteBundle huploaded (hafter _ _ hstaged) fun _ _ _ ↦ safe_done _

theorem safe_stageObjects (hagrees : Agrees bundles bundle) (owner : String)
    (hinv : Holds bundles bucket) {existing : List String}
    (hmanifest : manifestKey ∈ existing ↔ (bucket.objects.get? manifestKey).isSome)
    (hpayload : payloadKey ∈ existing ↔ (bucket.objects.get? payloadKey).isSome) :
    Safe bucketMachine (Holds bundles) thread keeping
      (stageObjects bundle owner existing >>= fun _ ↦ (pure () : Act Unit)) (fun _ _ ↦ True)
      (fun _ _ ↦ False) bucket := by
  unfold stageObjects
  by_cases hstored : manifestKey ∈ existing
  · -- The bundle is there: it is compared.
    obtain ⟨content, hcontent⟩ := Option.isSome_iff_exists.mp (hmanifest.mp hstored)
    obtain ⟨rfl, hpaired⟩ := hinv.manifest_eq hagrees hcontent
    have hpresent : payloadKey ∈ existing := hpayload.mpr (Option.isSome_iff_exists.mpr ⟨_, hpaired⟩)
    rw [if_pos hstored, if_neg (not_not.mpr hpresent), bind_assoc]
    exact safe_verifyRemoteBundle hcontent hpaired fun _ _ _ ↦ safe_done _
  · -- The payload is uploaded unless it is there, and compared; the manifest follows.
    rw [if_neg hstored]
    by_cases hpresent : payloadKey ∈ existing
    · obtain ⟨content, hcontent⟩ := Option.isSome_iff_exists.mp (hpayload.mp hpresent)
      obtain rfl := hinv.payload_eq hagrees hcontent
      simp only [if_pos hpresent, bind_assoc]
      exact safe_verifyRemotePayload hcontent fun staged hrely _ ↦
        safe_uploadManifest hagrees (hrely _ _ hcontent) _
    · simp only [if_neg hpresent, bind_assoc]
      refine safe_uploadFile (fun before _ hbefore ↦ ⟨fun old hold ↦
        hbefore.payload_eq hagrees hold, hbefore.set_payload hagrees⟩) ?_
      exact fun after _ huploaded ↦ safe_verifyRemotePayload huploaded fun staged hrely _ ↦
        safe_uploadManifest hagrees (hrely _ _ huploaded) _

/-- A stager that agrees with the others ends with a receipt. -/
theorem safe_stage (hagrees : Agrees bundles bundle) (owner : String) :
    Safe bucketMachine (Holds bundles) thread keeping
      (calling (stageBenchmarkBundle bundle owner (jobsArtifacts owner))) (fun _ _ ↦ True)
      (fun _ _ ↦ False) bucket := by
  unfold calling stageBenchmarkBundle
  rw [if_neg (not_not.mpr rfl)]
  simp only [bind_assoc]
  refine safe_requirePrivateBucket fun _ _ _ ↦ safe_validateRemoteInventory fun _ _ _ ↦ ?_
  refine safe_read (fun _ ↦ rfl) fun before _ hinv ↦ ?_
  have hexisting : ∀ key ∈ [manifestKey, payloadKey],
      (key ∈ before.answer (.getBucketPathsInfo [manifestKey, payloadKey]) ↔
        (before.objects.get? key).isSome) := by
    intro key hkey
    exact List.mem_filter.trans (and_iff_right hkey)
  exact safe_stageObjects hagrees owner hinv (hexisting manifestKey (by decide))
    (hexisting payloadKey (by decide))

/-- A reader of the stored manifest ends with a receipt. -/
theorem safe_verifyStaged {stored : Bytes} {manifest : BundleManifest} (owner : String)
    (hinv : Holds bundles bucket) (hstored : bucket.objects.get? manifestKey = some stored)
    (hread : readManifest stored = some manifest) :
    Safe bucketMachine (Holds bundles) thread keeping
      (calling (verifyStagedBenchmarkBundle manifest.contentDigest (sha256 stored) owner
        (jobsArtifacts owner))) (fun _ _ ↦ True) (fun _ _ ↦ False) bucket := by
  obtain ⟨bundle, -, rfl, hpayload⟩ := hinv.manifest stored hstored
  obtain rfl : bundle.manifest = manifest := Option.some.inj (bundle.valid.1.symm.trans hread)
  unfold calling verifyStagedBenchmarkBundle
  rw [if_neg (not_not.mpr rfl)]
  simp only [bind_assoc]
  refine safe_requirePrivateBucket fun first hfirst _ ↦ ?_
  refine safe_validateRemoteInventory fun second hsecond _ ↦ ?_
  have hkept := hfirst.trans hsecond
  refine safe_downloadFile (hkept _ _ hstored) fun third hthird _ ↦ ?_
  refine safe_downloadFile ((hkept.trans hthird) _ _ hpayload) fun fourth _ _ ↦ ?_
  rw [bundle.verified]
  dsimp only
  rw [if_neg (not_not.mpr rfl), if_neg (not_not.mpr rfl)]
  simp only [bind_assoc]
  exact safe_validateRemoteInventory fun _ _ _ _ _ _ ↦ trivial

end Agreeing

/-! ### Agreeing stagers -/

section Runs

variable {bundles : Set PreparedBenchmarkBundle} {bucket : Bucket}

omit [BundleFormat] in
theorem compatible_keeping {inv : Bucket → Prop} :
    Compatible bucketMachine independent inv (fun _ _ ↦ True) fun _ _ ↦ keeping where
  symm _ _ := rfl
  rely_of_guar _ _ _ _ h := h
  idle_of_guar _ _ _ := trivial
  restart h hrestart := by
    obtain rfl := Option.some.inj hrestart
    exact ⟨h, fun _ _ ↦ trivial⟩

/-- The calls that leave the bucket as it is. -/
def Reads (call : BucketCall) : Prop := ∀ bucket : Bucket, bucket.after call = bucket

theorem uses_verifyStaged (contentDigest manifestSha256 owner bucket : String) :
    (calling (verifyStagedBenchmarkBundle contentDigest manifestSha256 owner bucket)).Uses Reads := by
  have hinventory : validateRemoteInventory.Uses Reads := by
    refine ⟨fun _ ↦ rfl, fun observed ↦ ?_⟩
    dsimp only
    split <;> trivial
  have hdownload : ∀ path, (downloadFile path).Uses Reads := by
    refine fun path ↦ ⟨fun _ ↦ rfl, fun content ↦ ?_⟩
    dsimp only
    split <;> trivial
  have hprivate : (requirePrivateBucket bucket).Uses Reads := by
    refine ⟨fun _ ↦ rfl, fun isPrivate ↦ ?_⟩
    dsimp only
    split <;> trivial
  refine Program.uses_bind ?_ fun _ ↦ trivial
  unfold verifyStagedBenchmarkBundle
  split
  · trivial
  · refine Program.uses_bind hprivate fun _ ↦ Program.uses_bind hinventory fun _ ↦ ?_
    refine Program.uses_bind (hdownload _) fun manifestFile ↦ ?_
    refine Program.uses_bind (hdownload _) fun payloadFile ↦ ?_
    cases verifyBenchmarkBundle manifestFile payloadFile with
    | error message => trivial
    | ok manifest =>
      dsimp only
      split
      · trivial
      · split
        · trivial
        · exact Program.uses_bind hinventory fun _ ↦ trivial

theorem safe_reads {program : Act Unit} (h : program.Uses Reads) {thread : ℕ} :
    Safe bucketMachine (Holds bundles) thread keeping program (fun _ _ ↦ True) (fun _ _ ↦ True)
      bucket := by
  refine safe_of_uses h (fun _ _ _ _ _ ↦ trivial) ?_ trivial
  intro call hreads before hinv _ _ choice answer after hperform
  obtain ⟨rfl, rfl⟩ := Prod.mk.inj (Option.some.inj hperform)
  rw [hreads]
  exact ⟨Kept.refl _, hinv, trivial⟩

/-- Every call of a run is safe if the bundles of the set agree. -/
theorem safe_of_calls (hagrees : ∀ bundle ∈ bundles, Agrees bundles bundle) {role : Unit}
    {program : Act Unit} (h : Calls bundles role program) (thread : ℕ) (bucket : Bucket) :
    Safe bucketMachine (Holds bundles) thread keeping program (fun _ _ ↦ True) (fun _ _ ↦ True)
      bucket := by
  cases h with
  | @stage bundle hbundle owner name =>
    by_cases hname : name = jobsArtifacts owner
    · subst hname
      exact (safe_stage (hagrees bundle hbundle) owner).mono (fun _ _ _ _ ↦ trivial)
        fun _ _ _ _ ↦ trivial
    · unfold calling stageBenchmarkBundle
      rw [if_pos hname]
      exact fun _ _ _ ↦ trivial
  | verify contentDigest manifestSha256 owner name =>
    exact safe_reads (uses_verifyStaged contentDigest manifestSha256 owner name)

theorem holds_of_unstaged (h : Unstaged bucket) : Holds bundles bucket := by
  obtain ⟨hprivate, hobjects⟩ := h
  refine ⟨hprivate, ?_, ?_, ?_⟩ <;> rw [hobjects] <;> nofun

theorem sound_of_staged (hagrees : ∀ bundle ∈ bundles, Agrees bundles bundle)
    {config : StagingConfig} (h : Staged bundles config) :
    config.Sound bucketMachine independent (Holds bundles) (fun _ _ ↦ True) fun _ _ ↦ keeping :=
  reachable_sound compatible_keeping (fun _ hstart ↦ ⟨holds_of_unstaged hstart, fun _ ↦ trivial⟩)
    (fun _ _ hentry index state _ _ ↦ safe_of_calls hagrees hentry index state)
    (fun _ _ _ _ _ _ _ ↦ trivial) h

theorem agrees_of_stored (hagrees : ∀ bundle ∈ bundles, Agrees bundles bundle)
    (hinv : Holds bundles bucket) {bundle : PreparedBenchmarkBundle}
    (hstored : bucket.objects.get? manifestKey = some bundle.manifestFile) :
    Agrees bundles bundle := by
  obtain ⟨other, hother, hfile, -⟩ := hinv.manifest _ hstored
  have hpayload := PreparedBenchmarkBundle.payloadFile_eq hfile
  refine ⟨⟨other, hother, hpayload.symm, hfile.symm⟩, fun third hthird ↦ ?_⟩
  obtain ⟨hsame, hsameFile⟩ := (hagrees other hother).same third hthird
  exact ⟨hsame.trans hpayload.symm, hsameFile.trans hfile.symm⟩

/-- A call on the stored manifest is safe anywhere, and ends with a receipt where it is stored. -/
theorem safe_of_storedCall (hagrees : ∀ bundle ∈ bundles, Agrees bundles bundle) {owner : String}
    (hinv : Holds bundles bucket) {call : Act BenchmarkBundleReceipt}
    (h : StoredCall owner bucket call) (thread : ℕ) :
    (∀ other, Safe bucketMachine (Holds bundles) thread keeping (calling call) (fun _ _ ↦ True)
        (fun _ _ ↦ True) other) ∧
      Safe bucketMachine (Holds bundles) thread keeping (calling call) (fun _ _ ↦ True)
        (fun _ _ ↦ False) bucket := by
  cases h with
  | stage hstored =>
    have hbundle := agrees_of_stored hagrees hinv hstored
    exact ⟨fun other ↦ (safe_stage hbundle owner).mono (fun _ _ _ _ ↦ trivial) fun _ _ _ _ ↦ trivial,
      safe_stage hbundle owner⟩
  | verify hstored hread =>
    exact ⟨fun other ↦ safe_reads (uses_verifyStaged _ _ _ _),
      safe_verifyStaged owner hinv hstored hread⟩

omit [BundleFormat] in
theorem step_spawn (config : StagingConfig) (program : Act Unit) :
    config.step bucketMachine independent (.spawn () program) =
      some { config with threads := config.threads ++ [⟨(), program⟩] } := by
  have hfree : (config.threads.all fun other ↦
      !(other.program.live && independent other.role ())) = true := by
    simp [independent]
  exact if_pos hfree

theorem intact_of_agrees (hagrees : ∀ bundle ∈ bundles, Agrees bundles bundle)
    {config : StagingConfig} (h : Staged bundles config) : Intact bundles config := by
  have hsound := sound_of_staged hagrees h
  refine ⟨hsound.holds.whole, fun owner call hcall first hspawn last hlast error hraised ↦ ?_⟩
  have hfirst : first = { config with threads := config.threads ++ [⟨(), calling call⟩] } :=
    Option.some.inj (hspawn.symm.trans (step_spawn config _))
  have hsafe : Safe bucketMachine (Holds bundles) config.threads.length keeping (calling call)
      (fun _ _ ↦ True) (fun _ _ ↦ False) first.state := by
    rw [hfirst]
    exact (safe_of_storedCall hagrees hsound.holds hcall config.threads.length).2
  have hspawned : first.threads[config.threads.length]? = some ⟨(), calling call⟩ := by
    rw [hfirst]
    exact List.getElem?_concat_length
  have hstarted := hsound.spawn compatible_keeping
    (fun index state _ _ ↦ (safe_of_storedCall hagrees hsound.holds hcall index).1 state) hspawn
  obtain ⟨hended, rest, hrest, hheld⟩ := hstarted.continues compatible_keeping
    (fun _ _ hentry index state _ _ ↦ safe_of_calls hagrees hentry index state)
    (fun _ _ _ _ _ _ _ ↦ trivial) hlast hspawned hsafe
  obtain ⟨-, rfl⟩ := Thread.mk.inj (Option.some.inj (hrest.symm.trans hraised))
  exact hheld _ (Kept.refl _) hended.holds

/-! ### Disagreeing stagers -/

/-- Two threads that are reached with a bucket. -/
def Pair (bundles : Set PreparedBenchmarkBundle) (bucket : Bucket) (first second : Act Unit) : Prop :=
  ∃ config : StagingConfig, Staged bundles config ∧ config.state = bucket ∧
    config.threads = [⟨(), first⟩, ⟨(), second⟩]

theorem Pair.first {call : BucketCall} {resume : call.Answer → Act Unit}
    {second : Act Unit} (h : Pair bundles bucket (.await call resume) second) :
    Pair bundles (bucket.after call) (resume (bucket.answer call)) second := by
  obtain ⟨config, hstaged, rfl, hthreads⟩ := h
  have hthread : config.threads[0]? = some ⟨(), .await call resume⟩ := by rw [hthreads]; rfl
  have hperform : bucketMachine.perform 0 call () config.state =
      some (config.state.answer call, config.state.after call) := rfl
  refine ⟨_, .run hstaged hthread trivial hperform, rfl, ?_⟩
  rw [hthreads]
  rfl

theorem Pair.second {call : BucketCall} {resume : call.Answer → Act Unit}
    {first : Act Unit} (h : Pair bundles bucket first (.await call resume)) :
    Pair bundles (bucket.after call) first (resume (bucket.answer call)) := by
  obtain ⟨config, hstaged, rfl, hthreads⟩ := h
  have hthread : config.threads[1]? = some ⟨(), .await call resume⟩ := by rw [hthreads]; rfl
  have hperform : bucketMachine.perform 1 call () config.state =
      some (config.state.answer call, config.state.after call) := rfl
  refine ⟨_, .run hstaged hthread trivial hperform, rfl, ?_⟩
  rw [hthreads]
  rfl

/-- What a stager does after it has compared its payload. -/
def finishing (bundle : PreparedBenchmarkBundle) (receipt : BenchmarkBundleReceipt) : Act Unit :=
  uploadFile bundle.manifestFile manifestKey >>= fun _ ↦ verifyRemoteBundle bundle >>= fun _ ↦
    (pure receipt : Act BenchmarkBundleReceipt) >>= fun _ ↦ (pure () : Act Unit)

/-- A stager that has found neither object. -/
def uploading (bundle : PreparedBenchmarkBundle) (receipt : BenchmarkBundleReceipt) : Act Unit :=
  uploadFile bundle.payloadFile payloadKey >>= fun _ ↦ verifyRemotePayload bundle >>= fun _ ↦
    finishing bundle receipt

theorem stageObjects_nil (bundle : PreparedBenchmarkBundle) (owner : String) :
    (stageObjects bundle owner [] >>= fun _ ↦ (pure () : Act Unit)) =
      uploading bundle (benchmarkBundleReceipt bundle owner .uploaded) := by
  unfold stageObjects uploading finishing
  simp only [List.not_mem_nil, if_false, bind_assoc]

theorem stage_eq (bundle : PreparedBenchmarkBundle) (owner : String) :
    calling (stageBenchmarkBundle bundle owner (jobsArtifacts owner)) =
      (requirePrivateBucket (jobsArtifacts owner) >>= fun _ ↦ validateRemoteInventory >>= fun _ ↦
        .await (.getBucketPathsInfo [manifestKey, payloadKey]) fun existing ↦
          stageObjects bundle owner existing >>= fun _ ↦ (pure () : Act Unit)) := by
  unfold calling stageBenchmarkBundle
  rw [if_neg (not_not.mpr rfl)]
  simp only [bind_assoc]
  rfl

/-- Two stagers that have both found an empty prefix. -/
theorem pair_uploading {first second : PreparedBenchmarkBundle} (hfirst : first ∈ bundles)
    (hsecond : second ∈ bundles) (owner : String) :
    Pair bundles ⟨true, []⟩ (uploading first (benchmarkBundleReceipt first owner .uploaded))
      (uploading second (benchmarkBundleReceipt second owner .uploaded)) := by
  have hstart : Pair bundles ⟨true, []⟩
      (calling (stageBenchmarkBundle first owner (jobsArtifacts owner)))
      (calling (stageBenchmarkBundle second owner (jobsArtifacts owner))) := by
    have hnone : Staged bundles (.initial ⟨true, []⟩) := .start ⟨rfl, rfl⟩
    have hone := hnone.spawn (.stage hfirst owner (jobsArtifacts owner)) (step_spawn _ _)
    exact ⟨_, .spawn hone (.stage hsecond owner (jobsArtifacts owner)) (step_spawn _ _), rfl, rfl⟩
  rw [stage_eq, stage_eq] at hstart
  rw [← stageObjects_nil, ← stageObjects_nil]
  exact hstart.first.first.first.second.second.second

/-- The first stager compares its payload, the second replaces it, and the first uploads its
manifest. -/
theorem exists_broken_of_ne {first second : PreparedBenchmarkBundle} (hfirst : first ∈ bundles)
    (hsecond : second ∈ bundles) (hne : first.payloadFile ≠ second.payloadFile) :
    ∃ config, Staged bundles config ∧ ¬ Whole config.state := by
  obtain ⟨hread, -, hbytes, hsha256⟩ := first.valid
  have hcompared := (pair_uploading hfirst hsecond "").first.first
  have hreplaced := hcompared.second
  have hcompare : ((if first.payloadFile.length ≠ first.manifest.payload.bytes then
          raise "stored benchmark payload byte count changed"
        else if sha256 first.payloadFile ≠ first.manifest.payload.sha256 then
          raise "stored benchmark payload conflicts with local contents"
        else (pure ⟨⟩ : Act PUnit)) >>= fun _ ↦
          finishing first (benchmarkBundleReceipt first "" .uploaded)) =
      finishing first (benchmarkBundleReceipt first "" .uploaded) := by
    rw [if_neg (not_not.mpr hbytes), if_neg (not_not.mpr hsha256)]
    rfl
  have hready : Pair bundles ⟨true, [(payloadKey, second.payloadFile)]⟩
      (finishing first (benchmarkBundleReceipt first "" .uploaded))
      (verifyRemotePayload second >>= fun _ ↦
        finishing second (benchmarkBundleReceipt second "" .uploaded)) := by
    rw [← hcompare]
    exact hreplaced
  obtain ⟨config, hstaged, hstate, -⟩ := hready.first
  refine ⟨config, hstaged, fun hwhole ↦ hne ?_⟩
  rw [hstate] at hwhole
  obtain ⟨manifest, payload, hmanifest, hpayload, -, hdigest⟩ := hwhole first.manifestFile rfl
  obtain rfl : first.manifest = manifest := Option.some.inj (hread.symm.trans hmanifest)
  obtain rfl : second.payloadFile = payload := Option.some.inj hpayload
  exact sha256_injective (hsha256.trans hdigest.symm)

/-- With stagers of one content, what is staged is whole and can be staged and verified again in
every run, if and only if all bring the same payload. -/
theorem staged_iff (hcontent : ∀ first ∈ bundles, ∀ second ∈ bundles,
      first.manifest.contentDigest = second.manifest.contentDigest) :
    (∀ config, Staged bundles config → Intact bundles config) ↔
      ∀ first ∈ bundles, ∀ second ∈ bundles, first.payloadFile = second.payloadFile := by
  constructor
  · intro hintact first hfirst second hsecond
    by_contra hne
    obtain ⟨config, hstaged, hbroken⟩ := exists_broken_of_ne hfirst hsecond hne
    exact hbroken (hintact config hstaged).whole
  · intro hsame config hstaged
    refine intact_of_agrees (fun bundle hbundle ↦ ⟨⟨bundle, hbundle, rfl, rfl⟩, ?_⟩) hstaged
    intro other hother
    have hpayload := hsame other hother bundle hbundle
    have hmanifest := PreparedBenchmarkBundle.manifest_eq (hcontent other hother bundle hbundle) hpayload
    refine ⟨hpayload, ?_⟩
    rw [other.valid.2.1, bundle.valid.2.1, hmanifest]

end Runs

end Format

/-! ### Bundles of a sample format -/

section Sample

open Encodings

/-- An entry as a text. -/
def entryText : BundleEntry → String
  | .directory path => pairText path ""
  | .file path mode bytes sha256 =>
    pairText path (pairText (String.ofList (List.replicate mode 'm'))
      (pairText (String.ofList (List.replicate bytes 'b')) sha256))

theorem pairText_ne_empty (first second : String) : pairText first second ≠ "" := by
  intro h
  have hlist := congrArg String.toList h
  rw [pairText, String.toList_ofList] at hlist
  simp at hlist

theorem replicateText_injective {char : Char} {first second : ℕ}
    (h : String.ofList (List.replicate first char) = String.ofList (List.replicate second char)) :
    first = second := by
  have hlength := congrArg List.length (String.ofList_injective h)
  rwa [List.length_replicate, List.length_replicate] at hlength

theorem entryText_injective : Function.Injective entryText := by
  intro first second h
  cases first with
  | directory path =>
    cases second with
    | directory path' => rw [(pairText_injective h).1]
    | file path' mode bytes sha256 =>
      exact absurd (pairText_injective h).2.symm (pairText_ne_empty _ _)
  | file path mode bytes sha256 =>
    cases second with
    | directory path' => exact absurd (pairText_injective h).2 (pairText_ne_empty _ _)
    | file path' mode' bytes' sha256' =>
      obtain ⟨rfl, hrest⟩ := pairText_injective h
      obtain ⟨hmode, hrest⟩ := pairText_injective hrest
      obtain ⟨hbytes, rfl⟩ := pairText_injective hrest
      rw [replicateText_injective hmode, replicateText_injective hbytes]

theorem entriesText_injective : Function.Injective fun entries : List BundleEntry ↦
      entries.foldr (fun entry rest ↦ pairText (entryText entry) rest) "" := by
  intro first
  induction first with
  | nil =>
    intro second h
    cases second with
    | nil => rfl
    | cons entry rest => exact absurd h.symm (pairText_ne_empty _ _)
  | cons entry rest ih =>
    intro second h
    cases second with
    | nil => exact absurd h (pairText_ne_empty _ _)
    | cons other others =>
      obtain ⟨hentry, hrest⟩ := pairText_injective h
      rw [entryText_injective hentry, ih hrest]

local instance spelledDigests : BundleDigests where
  sha256 := octetText
  sha256_injective := octetText_injective
  contentDigest entries := entries.foldr (fun entry rest ↦ pairText (entryText entry) rest) ""
  contentDigest_injective := entriesText_injective

/-- The manifest of one file whose payload has so many bytes. -/
def sampleManifest (size : ℕ) : BundleManifest :=
  ⟨BundleDigests.contentDigest [.file "task.toml" 420 1 ""], [.file "task.toml" 420 1 ""],
    ⟨size, BundleDigests.sha256 (List.replicate size 0)⟩, rfl⟩

/-- A format in which a manifest is written as its payload is, and every payload unpacks. -/
local instance sampleFormat : BundleFormat where
  toBundleDigests := spelledDigests
  manifestBytes manifest := List.replicate manifest.payload.bytes 0
  readManifest file := some (sampleManifest file.length)
  extract _ _ := .ok ()

theorem verified_sample (size : ℕ) (hsize : size ≤ maxManifestBytes) :
    verifyBenchmarkBundle (List.replicate size 0) (List.replicate size 0) =
      .ok (sampleManifest size) := by
  refine verifyBenchmarkBundle_eq_ok.mpr ⟨validateBenchmarkBundle_eq_ok.mpr ?_, rfl⟩
  rw [List.length_replicate]
  exact ⟨hsize, congrArg (fun n ↦ some (sampleManifest n)) List.length_replicate, rfl, rfl, rfl⟩

def sampleBundle (size : ℕ) (hsize : size ≤ maxManifestBytes) : PreparedBenchmarkBundle :=
  ⟨sampleManifest size, List.replicate size 0, List.replicate size 0, verified_sample size hsize⟩

/-- Any number of stagers of one bundle leave it whole. -/
theorem staged_sample : {config | Staged {sampleBundle 1 (by decide)} config} ⊆
      {config | Intact {sampleBundle 1 (by decide)} config} := by
  refine fun config h ↦ (staged_iff fun first hfirst second hsecond ↦ ?_).mpr
    (fun first hfirst second hsecond ↦ ?_) config h
  · rw [hfirst, hsecond]
  · rw [hfirst, hsecond]

/-- Two stagers of one content, with payloads of one byte and of two, leave a manifest beside the
other's payload. -/
theorem staged_sample_broken : (sampleBundle 1 (by decide)).manifest.contentDigest =
        (sampleBundle 2 (by decide)).manifest.contentDigest ∧
      ∃ config, Staged {sampleBundle 1 (by decide), sampleBundle 2 (by decide)} config ∧
        ¬ Whole config.state :=
  ⟨rfl, exists_broken_of_ne (.inl rfl) (.inr rfl) (by decide)⟩

end Sample

end HarborHF.Benchmarks
