import HarborHF.Control.Tables
import HarborHF.Control.World

/-!
# What an append does

In every state of the control plane the projection's object rows are the stored records
(`World.Synced`): an append writes both, and a restart reads them back. Under this an append has one
of the outcomes of `Appended`, and a sync changes nothing but the ready flag. The later proofs reason
about appends through `append_spec` and the frame lemmas of its outcomes.
-/

set_option autoImplicit false

namespace HarborHF.Control

open Relational Projection

namespace World

variable {world : World} {record : Record}

/-- The projection's object rows are the stored records, one for each object. -/
structure Synced (world : World) : Prop where
  keyed : Keyed Record.key world.store.records
  objects : world.projection.objects.Perm world.store.records

theorem Synced.objectAt (h : world.Synced) (key : ObjectKey) :
    world.projection.objectAt key = world.store.readRecord key :=
  (h.keyed.of_perm h.objects.symm).lookup_perm h.objects key

theorem Synced.free_objects (h : world.Synced) {key : ObjectKey}
    (hfresh : Free Record.key key world.store.records) :
    Free Record.key key world.projection.objects :=
  fun other hother ↦ hfresh other (h.objects.mem_iff.mp hother)

theorem createRecord_fresh {store : ObjectStore}
    (hfresh : Free Record.key record.key store.records) :
    store.createRecord record = some (true, { store with records := store.records ++ [record] }) := by
  have hnone : store.readRecord record.key = none := lookup_eq_none.mpr hfresh
  simp only [ObjectStore.createRecord, hnone]

section

variable [Digests] {world' : World}

/-- The state after a fresh record: its object is stored, and the tables hold what `apply` left. -/
def afterAppend (world : World) (record : Record) : World :=
  { world with
    store := { world.store with records := world.store.records ++ [record] }
    projection := (world.projection.apply record).1 }

/-- The outcomes of an append. -/
inductive Appended (world : World) (record : Record) : Except ServiceError Bool → World → Prop
  | invalid (hinvalid : validateControlRecord record = false) :
      Appended world record (.error .contractValidation) world
  | unverified {error : EvidenceError} (hvalid : validateControlRecord record = true)
      (hevidence : verifyAttemptEvidence world.store record = .error error) :
      Appended world record (.error (.policy "attempt evidence verification failed")) world
  | conflict {existing : Record} (hvalid : validateControlRecord record = true)
      (hmem : existing ∈ world.store.records) (hkey : existing.key = record.key)
      (hne : existing ≠ record) :
      Appended world record (.error (.immutableConflict record.key)) world
  | present (hvalid : validateControlRecord record = true) (hmem : record ∈ world.store.records) :
      Appended world record (.ok false) world
  | refused {error : ProjectionError} (hvalid : validateControlRecord record = true)
      (hevidence : verifyAttemptEvidence world.store record = .ok ())
      (hfresh : Free Record.key record.key world.store.records)
      (happly : (world.projection.apply record).2 = some error) :
      Appended world record (.error (.projection error)) (world.afterAppend record)
  | poisoned {error : ProjectionError} (hvalid : validateControlRecord record = true)
      (hevidence : verifyAttemptEvidence world.store record = .ok ())
      (hfresh : Free Record.key record.key world.store.records)
      (haccepts : world.projection.Accepts record)
      (hverify : (world.projection.extend record).verifyInvariants = .error error) :
      Appended world record (.error (.projection error)) (world.afterAppend record)
  | accepted (hvalid : validateControlRecord record = true)
      (hevidence : verifyAttemptEvidence world.store record = .ok ())
      (hfresh : Free Record.key record.key world.store.records)
      (haccepts : world.projection.Accepts record)
      (hverify : (world.projection.extend record).verifyInvariants = .ok ()) :
      Appended world record (.ok true) (world.afterAppend record)

/-- An append has one of the outcomes of `Appended`. -/
theorem append_spec (h : world.Synced) {answer : Except ServiceError Bool}
    (happend : world.append record = (answer, world')) : Appended world record answer world' := by
  unfold append at happend
  split at happend
  · next hinvalid =>
    cases happend
    exact .invalid hinvalid
  next hvalid =>
  have hvalid : validateControlRecord record = true := by simpa using hvalid
  split at happend
  · next error hevidence =>
    cases happend
    exact .unverified hvalid hevidence
  next hevidence =>
  rw [h.objectAt] at happend
  cases hread : world.store.readRecord record.key with
  | some existing =>
    obtain ⟨hmem, hkey⟩ := lookup_mem hread
    by_cases hne : existing = record
    · subst hne
      have hcreate : world.store.createRecord existing = some (false, world.store) := by
        simp only [ObjectStore.createRecord, hread, if_true]
      simp only [hcreate, hread, ne_eq, not_true_eq_false, if_false] at happend
      cases happend
      exact .present hvalid hmem
    · have hcreate : world.store.createRecord record = none := by
        simp only [ObjectStore.createRecord, hread, if_neg hne]
      simp only [hcreate] at happend
      cases happend
      exact .conflict hvalid hmem hkey hne
  | none =>
    have hfresh : Free Record.key record.key world.store.records := lookup_eq_none.mp hread
    rw [createRecord_fresh hfresh] at happend
    simp only [hread, ingest] at happend
    cases happly : world.projection.apply record with
    | mk tables outcome =>
      have htables : tables = (world.projection.apply record).1 := by rw [happly]
      rw [happly] at happend
      cases outcome with
      | some error =>
        cases happend
        rw [htables]
        exact .refused hvalid hevidence hfresh (by rw [happly])
      | none =>
        obtain ⟨haccepts, hextend⟩ := apply_eq_ok.mp happly
        cases hverify : tables.verifyInvariants with
        | error error =>
          simp only [hverify, errorOf] at happend
          cases happend
          rw [hextend] at hverify
          rw [htables]
          exact .poisoned hvalid hevidence hfresh haccepts hverify
        | ok value =>
          simp only [hverify, errorOf] at happend
          cases happend
          rw [hextend] at hverify
          rw [htables]
          exact .accepted hvalid hevidence hfresh haccepts hverify

/-- The tables after a fresh record: extended when it is accepted, and otherwise as they were but for
what a refused lock leaves behind. -/
theorem apply_cases {P : Projection} (hfree : Free Record.key record.key P.objects) :
    (P.Accepts record ∧ (P.apply record).1 = P.extend record) ∨
      (¬ P.Accepts record ∧ ∃ added, (isLock record = false → added = []) ∧
        (P.apply record).1 = { P with
          objects := P.objects ++ [record]
          campaigns := P.extendCampaigns record
          tasks := P.tasks ++ added }) := by
  cases happly : P.apply record with
  | mk tables outcome =>
    cases outcome with
    | none =>
      obtain ⟨haccepts, rfl⟩ := apply_eq_ok.mp happly
      exact .inl ⟨haccepts, rfl⟩
    | some error =>
      refine .inr ⟨fun haccepts ↦ ?_, apply_refused hfree happly⟩
      rw [apply_eq_ok.mpr ⟨haccepts, rfl⟩] at happly
      cases happly

theorem apply_objects {P : Projection} (hfree : Free Record.key record.key P.objects) :
    (P.apply record).1.objects = P.objects ++ [record] := by
  rcases apply_cases hfree with ⟨-, happly⟩ | ⟨-, added, -, happly⟩ <;> rw [happly]
  rfl

theorem apply_of_accepts {P : Projection} (haccepts : P.Accepts record) :
    P.apply record = (P.extend record, none) := apply_eq_ok.mpr ⟨haccepts, rfl⟩

theorem Synced.afterAppend (h : world.Synced)
    (hfresh : Free Record.key record.key world.store.records) :
    (world.afterAppend record).Synced := by
  constructor
  · exact h.keyed.insertRow (insertRow_eq_some.mpr ⟨hfresh, rfl⟩)
  · change (world.projection.apply record).1.objects.Perm _
    rw [apply_objects (h.free_objects hfresh)]
    exact h.objects.append_right [record]

theorem append_world (h : world.Synced) {answer : Except ServiceError Bool}
    (happend : world.append record = (answer, world')) : world' = world ∨
      (Free Record.key record.key world.store.records ∧ world' = world.afterAppend record) := by
  cases append_spec h happend with
  | invalid | unverified | conflict | present => exact .inl rfl
  | refused _ _ hfresh | poisoned _ _ hfresh | accepted _ _ hfresh => exact .inr ⟨hfresh, rfl⟩

theorem append_ok (h : world.Synced) {created : Bool}
    (happend : world.append record = (.ok created, world')) :
    (record ∈ world.store.records ∧ world' = world) ∨
      (Free Record.key record.key world.store.records ∧ world.projection.Accepts record ∧
        (world.projection.extend record).verifyInvariants = .ok () ∧
          world' = world.afterAppend record) := by
  cases append_spec h happend with
  | present _ hmem => exact .inl ⟨hmem, rfl⟩
  | accepted _ _ hfresh haccepts hverify => exact .inr ⟨hfresh, haccepts, hverify, rfl⟩

theorem afterAppend_projection (haccepts : world.projection.Accepts record) :
    (world.afterAppend record).projection = world.projection.extend record := by
  simp only [afterAppend, apply_of_accepts haccepts]

/-! ### Syncs and restarts -/

/-- Entries that the tables hold already are passed over. -/
theorem syncEntries_synced {store : ObjectStore} {P : Projection} {entries : List Record}
    {seen : List ObjectKey} {ingested : ℕ} (hkeyed : Keyed Record.key P.objects)
    (hentries : Keyed Record.key entries) (hmem : ∀ entry ∈ entries, entry ∈ P.objects)
    (hseen : ∀ entry ∈ entries, entry.key ∉ seen) :
    syncEntries store entries seen ingested P = (P, .ok ingested) := by
  induction entries generalizing seen with
  | nil => rfl
  | cons entry rest ih =>
    have hlookup : lookup Record.key entry.key P.objects = some entry :=
      hkeyed.lookup_eq_some.mpr ⟨hmem entry List.mem_cons_self, rfl⟩
    have hsplit := List.nodup_cons.mp hentries
    simp only [syncEntries, hlookup, if_neg (hseen entry List.mem_cons_self), ne_eq,
      not_true_eq_false, if_false]
    refine ih hsplit.2 (fun other hother ↦ hmem other (List.mem_cons_of_mem entry hother)) ?_
    intro other hother hmember
    rcases List.mem_cons.mp hmember with hkey | hold
    · exact hsplit.1 (hkey ▸ List.mem_map_of_mem hother)
    · exact hseen other (List.mem_cons_of_mem entry hother) hold

theorem Synced.syncProjection (h : world.Synced) : world.syncProjection =
      (.ok 0, { world with projection := { world.projection with ready := true } }) := by
  have hperm : (world.store.records.insertionSort PathOrder).Perm world.store.records :=
    List.perm_insertionSort _ _
  have hsync : syncEntries world.store (world.store.records.insertionSort PathOrder) [] 0
      world.projection = (world.projection, .ok 0) := by
    refine syncEntries_synced (h.keyed.of_perm h.objects.symm) (h.keyed.of_perm hperm.symm) ?_ ?_
    · exact fun entry hentry ↦ h.objects.mem_iff.mpr (hperm.mem_iff.mp hentry)
    · exact fun entry _ ↦ List.not_mem_nil
  simp only [World.syncProjection, sync, syncFrom, hsync, if_true]

/-- The tables that a restart reads back from the store. -/
def rebuilt (world : World) : Projection :=
  extendAll (world.store.records.insertionSort PathOrder) {}

theorem restart_eq_some : world.restart = some world' ↔
      (∀ record ∈ world.store.records, checkEntry world.store record = .ok ()) ∧
        AcceptsAll (world.store.records.insertionSort PathOrder) {} ∧
          world.rebuilt.verifyInvariants = .ok () ∧
            world' = { world with projection := { world.rebuilt with ready := true }, held := [] } := by
  unfold restart rebuild rebuilt
  cases hrebuild : rebuildFrom world.store world.store.records with
  | mk tables outcome =>
    cases outcome with
    | none =>
      obtain ⟨hchecks, haccepts, hverify, rfl⟩ := rebuildFrom_eq_ok.mp hrebuild
      simp only [Option.some.injEq, hverify, haccepts, true_and]
      rw [and_iff_right hchecks]
      exact eq_comm
    | some error =>
      constructor
      · intro h
        cases h
      · rintro ⟨hchecks, haccepts, hverify, -⟩
        rw [rebuildFrom_eq_ok.mpr ⟨hchecks, haccepts, hverify, rfl⟩] at hrebuild
        cases hrebuild

theorem keyed_of_acceptsAll {records : List Record} {P : Projection}
    (h : AcceptsAll records P) (hkeyed : Keyed Record.key P.objects) :
    Keyed Record.key (P.objects ++ records) := by
  induction records generalizing P with
  | nil => simpa using hkeyed
  | cons record rest ih =>
    have hrest := ih h.2 (hkeyed.insertRow (insertRow_eq_some.mpr ⟨h.1.1, rfl⟩))
    simpa [extend] using hrest

theorem synced_of_restart (h : world.restart = some world') : world'.Synced := by
  obtain ⟨-, haccepts, -, rfl⟩ := restart_eq_some.mp h
  have hperm : (world.store.records.insertionSort PathOrder).Perm world.store.records :=
    List.perm_insertionSort _ _
  have hkeyed : Keyed Record.key (world.store.records.insertionSort PathOrder) := by
    simpa using keyed_of_acceptsAll haccepts List.nodup_nil
  refine ⟨hkeyed.of_perm hperm, ?_⟩
  change (extendAll (world.store.records.insertionSort PathOrder) {}).objects.Perm _
  rw [extendAll_objects]
  exact hperm

/-! ### One step -/

/-- Nothing but the ready flag and the objects beside the records may differ. -/
structure Unchanged (before after : World) : Prop where
  records : after.store.records = before.store.records
  projection : ∃ ready, after.projection = { before.projection with ready := ready }
  held : after.held = before.held

omit [Digests] in
theorem Unchanged.refl (world : World) : Unchanged world world := ⟨rfl, ⟨_, rfl⟩, rfl⟩

omit [Digests] in
/-- A result is stored beside the records. -/
theorem createResult_world {result : SandboxResult} {answer : Except ServiceError Unit}
    (h : world.createResult result = (answer, world')) :
    ∃ store, store.records = world.store.records ∧ world' = { world with store := store } := by
  unfold World.createResult ObjectStore.createResult at h
  split at h
  · next store hstore =>
    cases h
    refine ⟨store, ?_, rfl⟩
    split at hstore
    · cases hstore
      rfl
    · split_ifs at hstore
      cases hstore
      rfl
  · cases h
    exact ⟨_, rfl, rfl⟩

omit [Digests] in
/-- An evidence object is stored beside the records. -/
theorem createEvidence_world {object : StoredObject} {answer : Except ServiceError Unit}
    (h : world.createEvidence object = (answer, world')) :
    ∃ store, store.records = world.store.records ∧ world' = { world with store := store } := by
  unfold World.createEvidence ObjectStore.createEvidence at h
  split at h
  · next store hstore =>
    cases h
    refine ⟨store, ?_, rfl⟩
    split at hstore
    · cases hstore
      rfl
    · split_ifs at hstore
      cases hstore
      rfl
  · cases h
    exact ⟨_, rfl, rfl⟩

/-- What one operation can do in a synced state. -/
theorem perform_cases {thread : ℕ} {op : Op} {choice : Choice} {answer : op.Ans}
    (h : world.Synced) (hperform : World.perform thread op choice world = some (answer, world')) :
    (∃ record, op = .append record ∧ Free Record.key record.key world.store.records ∧
      world' = world.afterAppend record) ∨
    (∃ record, op = .remoteAppend record) ∨
    (∃ queue, op = .acquire queue ∧ (∀ other, (queue, other) ∉ world.held) ∧
      world' = { world with held := (queue, thread) :: world.held }) ∨
    (∃ queue, op = .release queue ∧
      world' = { world with held := world.held.filter fun entry ↦ entry ≠ (queue, thread) }) ∨
    Unchanged world world' := by
  cases op with
  | append record =>
    have happend : world.append record = (answer, world') := Option.some.inj hperform
    rcases append_world h happend with rfl | ⟨hfresh, hworld⟩
    · exact .inr (.inr (.inr (.inr (.refl _))))
    · exact .inl ⟨record, rfl, hfresh, hworld⟩
  | remoteAppend record => exact .inr (.inl ⟨record, rfl⟩)
  | syncProjection =>
    have hsync : world.syncProjection = (answer, world') := Option.some.inj hperform
    rw [h.syncProjection] at hsync
    cases hsync
    exact .inr (.inr (.inr (.inr ⟨rfl, ⟨_, rfl⟩, rfl⟩)))
  | createResult result =>
    obtain ⟨store, hrecords, rfl⟩ := createResult_world (Option.some.inj hperform)
    exact .inr (.inr (.inr (.inr ⟨hrecords, ⟨_, rfl⟩, rfl⟩)))
  | createEvidence object =>
    obtain ⟨store, hrecords, rfl⟩ := createEvidence_world (Option.some.inj hperform)
    exact .inr (.inr (.inr (.inr ⟨hrecords, ⟨_, rfl⟩, rfl⟩)))
  | acquire queue =>
    simp only [World.perform] at hperform
    split at hperform
    · cases hperform
    · next hfree =>
      cases hperform
      refine .inr (.inr (.inl ⟨queue, rfl, ?_, rfl⟩))
      intro other hother
      exact hfree (List.any_eq_true.mpr ⟨(queue, other), hother, by simp⟩)
  | release queue =>
    cases hperform
    exact .inr (.inr (.inr (.inl ⟨queue, rfl, rfl⟩)))
  | _ =>
    cases hperform
    exact .inr (.inr (.inr (.inr (.refl _))))

theorem afterAppend_ready (h : world.Synced)
    (hfresh : Free Record.key record.key world.store.records) :
    (world.afterAppend record).projection.ready = world.projection.ready := by
  change (world.projection.apply record).1.ready = _
  rcases apply_cases (h.free_objects hfresh) with ⟨-, happly⟩ | ⟨-, added, -, happly⟩
  · rw [happly]
    rfl
  · rw [happly]

/-- A projection that is ready stays so. -/
theorem perform_ready {thread : ℕ} {op : Op} {choice : Choice} {answer : op.Ans}
    (h : world.Synced) (hready : world.projection.ready = true)
    (hperform : World.perform thread op choice world = some (answer, world')) :
    world'.projection.ready = true := by
  cases op with
  | append record =>
    rcases append_world h (Option.some.inj hperform) with rfl | ⟨hfresh, rfl⟩
    · exact hready
    · rw [afterAppend_ready h hfresh]
      exact hready
  | remoteAppend record =>
    have hremote : world.remoteAppend record = world' := (Prod.mk.inj (Option.some.inj hperform)).2
    subst hremote
    unfold World.remoteAppend
    split
    · exact hready
    split
    · exact hready
    split
    · exact hready
    · exact hready
  | syncProjection =>
    have hsync : world.syncProjection = (answer, world') := Option.some.inj hperform
    rw [h.syncProjection] at hsync
    cases hsync
    rfl
  | createResult result =>
    obtain ⟨store, -, rfl⟩ := createResult_world (Option.some.inj hperform)
    exact hready
  | createEvidence object =>
    obtain ⟨store, -, rfl⟩ := createEvidence_world (Option.some.inj hperform)
    exact hready
  | acquire queue =>
    simp only [World.perform] at hperform
    split at hperform
    · cases hperform
    · cases hperform
      exact hready
  | _ =>
    cases hperform
    exact hready

end

end World

end HarborHF.Control
