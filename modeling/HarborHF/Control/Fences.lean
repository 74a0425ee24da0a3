import HarborHF.Control.Ceilings
import HarborHF.Control.Footprints

/-!
# Dispatch fences

A call of the external port that may create something (`Creates`) is to be made at most once for an
action. The fence is the action's dispatch record: the store keeps one object for it, so at most one
append ever answers that it was created (`Issues`), whatever the threads, crashes and restarts.

A launch of a Job goes on only when its own append created the record, and `job_created_once` holds
of all runs. The reconciler's Sandbox creates and the API's commands do not look at that answer:
`sandbox_created_once` and `command_executed_once` are about the runs in which a thread that calls the
port is the one that created the record, and `sandbox_created_twice` and `command_executed_twice` are
runs in which it is not.
-/

set_option autoImplicit false

namespace HarborHF.Control

open Async Program Relational Projection

/-- The operations performed so far, the latest first. -/
abbrev Log := List (Performed interface)

/-- A call of the port for an action of this kind that is not restricted to adoption. -/
def creates (kind : ActionKind) (actionId : String) : Op → Bool
  | .port call =>
    decide (call.intent.actionKind = kind ∧ call.intent.actionId = actionId) && !call.adoptionOnly
  | _ => false

/-- An append that created the dispatch record of an action. -/
def Issues (actionId : String) (performed : Performed interface) : Prop :=
  ∃ (thread : ℕ) (record : ActionDispatch), record.actionId = actionId ∧
    performed = ⟨thread, .append (.actionDispatch record), .ok true⟩

/-- The thread created the dispatch record of an action. -/
def Owned (thread : ℕ) (actionId : String) (log : Log) : Prop :=
  ∃ performed ∈ log, Issues actionId performed ∧ performed.thread = thread

/-- The thread has not called the port for an action. -/
def Unused (kind : ActionKind) (thread : ℕ) (actionId : String) (log : Log) : Prop :=
  ∀ performed ∈ log, creates kind actionId performed.op = true → performed.thread ≠ thread

/-- How often the port was called for an action without restriction to adoption. -/
def creations (kind : ActionKind) (actionId : String) (log : Log) : ℕ :=
  log.countP fun performed ↦ creates kind actionId performed.op

/-- An operation that is no unrestricted call for an action of this kind, and no write of another
instance. -/
def Calm (kind : ActionKind) : Op → Prop
  | .port call => call.intent.actionKind ≠ kind ∨ call.adoptionOnly = true
  | .remoteAppend _ => False
  | _ => True

theorem Calm.creates {kind : ActionKind} {op : Op} (h : Calm kind op) (actionId : String) :
    creates kind actionId op = false := by
  cases op with
  | port call =>
    rcases h with hkind | hadoption
    · simp [HarborHF.Control.creates, hkind]
    · simp [HarborHF.Control.creates, hadoption]
  | _ => rfl

theorem Local.calm {allowed : Record → Prop} {kind : ActionKind} (op : Op) (h : Local allowed op) :
    Calm kind op := by
  cases op with
  | port call => exact absurd h id
  | remoteAppend record => exact absurd h id
  | _ => trivial

section

variable [Digests] {kind : ActionKind} {thread : ℕ} {state : World × Log}

/-! ### The invariant -/

/-- What the log says of the fences: an issued record is stored and in the dispatch table, no two
threads issued the same one, and a thread that called the port owned the fence and was the only
one. -/
structure Fenced (kind : ActionKind) (state : World × Log) : Prop where
  synced : state.1.Synced
  stored : ∀ performed ∈ state.2, ∀ actionId, Issues actionId performed →
    ∃ record, .actionDispatch record ∈ state.1.store.records ∧ record.actionId = actionId
  recorded : ∀ performed ∈ state.2, ∀ actionId, Issues actionId performed →
    ∃ record ∈ state.1.projection.dispatches, record.actionId = actionId
  issuer : ∀ first ∈ state.2, ∀ second ∈ state.2, ∀ actionId, Issues actionId first →
    Issues actionId second → first.thread = second.thread
  owned : ∀ performed ∈ state.2, ∀ actionId, creates kind actionId performed.op = true →
    Owned performed.thread actionId state.2
  once : ∀ actionId, creations kind actionId state.2 ≤ 1

/-- What a thread sees of the others: dispatch records stay, and the log grows by operations of
others. -/
structure FenceSteady (thread : ℕ) (before after : World × Log) : Prop where
  dispatches : ∀ record ∈ before.1.projection.dispatches, record ∈ after.1.projection.dispatches
  log : ∃ added, after.2 = added ++ before.2 ∧ ∀ performed ∈ added, performed.thread ≠ thread

/-- A thread that calls the port for an action created the action's dispatch record. Nothing is asked
of the launches of Jobs. -/
def Honoured (kind : ActionKind) (thread : ℕ) (log : Log) (op : Op) : Prop :=
  kind ≠ .jobLaunch → ∀ actionId, creates kind actionId op = true → Owned thread actionId log

/-- The contract of every thread with the fences of a kind of actions. -/
def fenceContract (kind : ActionKind) (thread : ℕ) : Contract interface (World × Log) where
  rely := FenceSteady thread
  guar before after := ∀ other, other ≠ thread → FenceSteady other before after
  ok op state := Honoured kind thread state.2 op
  rely_refl _ := ⟨fun _ h ↦ h, [], rfl, fun _ h ↦ absurd h List.not_mem_nil⟩
  rely_trans := by
    rintro first middle last ⟨hkept, added, hadded, hothers⟩ ⟨hkept', added', hadded', hothers'⟩
    refine ⟨fun record h ↦ hkept' record (hkept record h), added' ++ added, ?_, ?_⟩
    · rw [hadded', hadded, List.append_assoc]
    · intro performed hmem
      rcases List.mem_append.mp hmem with hnew | hold
      · exact hothers' performed hnew
      · exact hothers performed hold

/-! ### Steps -/

theorem dispatches_afterAppend {world : World} {record : Record} (hsynced : world.Synced)
    (hfresh : Free Record.key record.key world.store.records) {dispatch : ActionDispatch}
    (h : dispatch ∈ world.projection.dispatches) :
    dispatch ∈ (world.afterAppend record).projection.dispatches := by
  rcases World.apply_cases (hsynced.free_objects hfresh) with ⟨-, happly⟩ | ⟨-, added, -, happly⟩
  · simp only [World.afterAppend, happly]
    exact List.mem_append_left _ h
  · simp only [World.afterAppend, happly]
    exact h

/-- No operation of this instance loses a record or a dispatch, or puts the tables out of step. -/
theorem perform_grows {world world' : World} {op : Op} {choice : Choice} {answer : op.Ans}
    (hsynced : world.Synced) (hop : ∀ record, op ≠ .remoteAppend record)
    (hperform : World.perform thread op choice world = some (answer, world')) :
    world'.Synced ∧ (∀ record ∈ world.store.records, record ∈ world'.store.records) ∧
      ∀ dispatch ∈ world.projection.dispatches, dispatch ∈ world'.projection.dispatches := by
  rcases World.perform_cases hsynced hperform with ⟨record, -, hfresh, rfl⟩ | ⟨record, hremote⟩ |
    ⟨queue, -, -, rfl⟩ | ⟨queue, -, rfl⟩ | ⟨hrecords, ⟨ready, hprojection⟩, -⟩
  · exact ⟨hsynced.afterAppend hfresh, fun _ h ↦ List.mem_append_left _ h,
      fun _ h ↦ dispatches_afterAppend hsynced hfresh h⟩
  · exact absurd hremote (hop record)
  · exact ⟨⟨hsynced.keyed, hsynced.objects⟩, fun _ h ↦ h, fun _ h ↦ h⟩
  · exact ⟨⟨hsynced.keyed, hsynced.objects⟩, fun _ h ↦ h, fun _ h ↦ h⟩
  · refine ⟨⟨hrecords ▸ hsynced.keyed, ?_⟩, fun _ h ↦ hrecords ▸ h, fun _ h ↦ ?_⟩
    · rw [hprojection, hrecords]
      exact hsynced.objects
    · rw [hprojection]
      exact h

theorem issue_spec {world world' : World} {record : ActionDispatch} (hsynced : world.Synced)
    (happend : world.append (.actionDispatch record) = (.ok true, world')) :
    (∀ dispatch ∈ world.projection.dispatches, dispatch.actionId ≠ record.actionId) ∧
      record ∈ world'.projection.dispatches ∧ .actionDispatch record ∈ world'.store.records := by
  cases World.append_spec hsynced happend with
  | accepted _ _ _ haccepts _ =>
    have hfree : Free ActionDispatch.actionId record.actionId world.projection.dispatches :=
      haccepts.2.2
    refine ⟨hfree, ?_, List.mem_append_right _ List.mem_cons_self⟩
    rw [World.afterAppend_projection haccepts]
    exact List.mem_append_right _ List.mem_cons_self

omit [Digests] in
theorem Fenced.unused (h : Fenced kind state) {actionId : String}
    (hfree : ∀ record ∈ state.1.projection.dispatches, record.actionId ≠ actionId) :
    Unused kind thread actionId state.2 := by
  intro performed hmem hcreates _
  obtain ⟨issue, hissue, hissues, -⟩ := h.owned performed hmem actionId hcreates
  obtain ⟨record, hrecord, hname⟩ := h.recorded issue hissue actionId hissues
  exact hfree record hrecord hname

/-- A licensed operation keeps the fences, and the other threads see no more than an entry of the
log. -/
theorem Fenced.perform {state state' : World × Log} {op : Op} {choice : Choice} {answer : op.Ans}
    (h : Fenced kind state) (hop : ∀ record, op ≠ .remoteAppend record)
    (hlicence : ∀ actionId, creates kind actionId op = true →
      Owned thread actionId state.2 ∧ Unused kind thread actionId state.2)
    (hperform : machine.traced.perform thread op choice state = some (answer, state')) :
    Fenced kind state' ∧ ∀ other, other ≠ thread → FenceSteady other state state' := by
  obtain ⟨world, log⟩ := state
  obtain ⟨world', log'⟩ := state'
  obtain ⟨hworld, hlog⟩ := Machine.traced_perform.mp hperform
  simp only at hworld hlog
  subst hlog
  obtain ⟨hsynced, hrecords, hdispatches⟩ := perform_grows h.synced hop hworld
  -- an entry that issues a record is the append of this step, and the record was not issued before
  have hissue : ∀ actionId, Issues actionId ⟨thread, op, answer⟩ →
      (∀ dispatch ∈ world.projection.dispatches, dispatch.actionId ≠ actionId) ∧
        (∃ record ∈ world'.projection.dispatches, record.actionId = actionId) ∧
          ∃ record, .actionDispatch record ∈ world'.store.records ∧ record.actionId = actionId := by
    rintro actionId ⟨issuer, record, rfl, hentry⟩
    cases hentry
    obtain ⟨hfree, htable, hstore⟩ := issue_spec h.synced (Option.some.inj hworld)
    exact ⟨hfree, ⟨record, htable, rfl⟩, record, hstore, rfl⟩
  have hnew : ∀ performed ∈ log, ∀ actionId, Issues actionId performed →
      ¬ Issues actionId ⟨thread, op, answer⟩ := by
    intro performed hmem actionId hold hentry
    obtain ⟨record, hrecord, hname⟩ := h.recorded performed hmem actionId hold
    exact (hissue actionId hentry).1 record hrecord hname
  have howned : ∀ issuer actionId, Owned issuer actionId log →
      Owned issuer actionId (⟨thread, op, answer⟩ :: log) := by
    rintro issuer actionId ⟨performed, hmem, hissues⟩
    exact ⟨performed, List.mem_cons_of_mem _ hmem, hissues⟩
  refine ⟨⟨hsynced, ?_, ?_, ?_, ?_, ?_⟩, fun other hother ↦ ⟨hdispatches, [⟨thread, op, answer⟩],
    rfl, ?_⟩⟩
  · intro performed hmem actionId hissues
    rcases List.mem_cons.mp hmem with rfl | hold
    · exact (hissue actionId hissues).2.2
    · obtain ⟨record, hrecord, hname⟩ := h.stored performed hold actionId hissues
      exact ⟨record, hrecords _ hrecord, hname⟩
  · intro performed hmem actionId hissues
    rcases List.mem_cons.mp hmem with rfl | hold
    · exact (hissue actionId hissues).2.1
    · obtain ⟨record, hrecord, hname⟩ := h.recorded performed hold actionId hissues
      exact ⟨record, hdispatches _ hrecord, hname⟩
  · intro first hfirst second hsecond actionId hissues hissues'
    rcases List.mem_cons.mp hfirst with rfl | hold
    · rcases List.mem_cons.mp hsecond with rfl | hold'
      · rfl
      · exact absurd hissues (hnew second hold' actionId hissues')
    · rcases List.mem_cons.mp hsecond with rfl | hold'
      · exact absurd hissues' (hnew first hold actionId hissues)
      · exact h.issuer first hold second hold' actionId hissues hissues'
  · intro performed hmem actionId hcreates
    rcases List.mem_cons.mp hmem with rfl | hold
    · exact howned thread actionId (hlicence actionId hcreates).1
    · exact howned performed.thread actionId (h.owned performed hold actionId hcreates)
  · intro actionId
    have honce := h.once actionId
    unfold creations at honce ⊢
    rw [List.countP_cons]
    split_ifs with hcreates
    · -- whoever called before owned the fence that this thread owns
      have hzero : log.countP (fun performed ↦ creates kind actionId performed.op) = 0 := by
        rw [List.countP_eq_zero]
        intro performed hmem hcalled
        obtain ⟨⟨issue, hmine, hissues, hthread⟩, hunused⟩ := hlicence actionId hcreates
        obtain ⟨other, hother, hissues', hthread'⟩ := h.owned performed hmem actionId hcalled
        have hsame := h.issuer other hother issue hmine actionId hissues' hissues
        exact hunused performed hmem hcalled (hthread'.symm.trans (hsame.trans hthread))
      omega
    · omega
  · intro performed hmem
    rw [List.mem_singleton.mp hmem]
    exact Ne.symm hother

/-! ### Rules -/

variable {α β : Type} {post : α → World × Log → Prop} {fail : ServiceError → World × Log → Prop}
  {intent : ActionIntent} {options : ReconcilerOptions} {hold : World × Log → Prop}

/-- A program that is safe with the fences. -/
abbrev FenceSafe (kind : ActionKind) (thread : ℕ) (program : Act α)
    (post : α → World × Log → Prop) (fail : ServiceError → World × Log → Prop)
    (state : World × Log) : Prop :=
  Safe machine.traced (Fenced kind) thread (fenceContract kind thread) program post fail state

theorem fence_await {op : Op} {resume : op.Ans → Act α} (hop : ∀ record, op ≠ .remoteAppend record)
    (hlicence : ∀ before, FenceSteady thread state before → Fenced kind before →
      Honoured kind thread before.2 op → ∀ actionId, creates kind actionId op = true →
        Owned thread actionId before.2 ∧ Unused kind thread actionId before.2)
    (hnext : ∀ before, FenceSteady thread state before → Fenced kind before →
      ∀ choice answer after, machine.traced.perform thread op choice before = some (answer, after) →
        Fenced kind after → FenceSafe kind thread (resume answer) post fail after) :
    FenceSafe kind thread (.await op resume) post fail state := by
  refine safe_await fun before hrely hinv hok choice answer after hperform ↦ ?_
  obtain ⟨hafter, hguar⟩ := hinv.perform hop (hlicence before hrely hinv hok) hperform
  exact ⟨hguar, hafter, hnext before hrely hinv choice answer after hperform hafter⟩

/-- An assertion that survives the other threads and the calm operations of this one. -/
structure Kept (kind : ActionKind) (thread : ℕ) (hold : World × Log → Prop) : Prop where
  stable : ∀ before after, FenceSteady thread before after → hold before → hold after
  step : ∀ op, Calm kind op → ∀ (before after : World × Log) (answer : op.Ans),
    after.2 = ⟨thread, op, answer⟩ :: before.2 → hold before → hold after

omit [Digests] in
theorem kept_true : Kept kind thread fun _ ↦ True :=
  ⟨fun _ _ _ _ ↦ trivial, fun _ _ _ _ _ _ _ ↦ trivial⟩

omit [Digests] in
theorem kept_unused (actionId : String) :
    Kept kind thread fun state ↦ Unused kind thread actionId state.2 where
  stable before after := by
    rintro ⟨-, added, hadded, hothers⟩ hunused performed hmem hcreates
    rw [hadded] at hmem
    rcases List.mem_append.mp hmem with hnew | hold
    · exact hothers performed hnew
    · exact hunused performed hold hcreates
  step op hcalm before after answer hlog hunused performed hmem hcreates := by
    rw [hlog] at hmem
    rcases List.mem_cons.mp hmem with rfl | hold
    · rw [hcalm.creates] at hcreates
      cases hcreates
    · exact hunused performed hold hcreates

omit [Digests] in
theorem owned_stable {before after : World × Log} {actionId : String}
    (hsteady : FenceSteady thread before after) (h : Owned thread actionId before.2) :
    Owned thread actionId after.2 := by
  obtain ⟨-, added, hadded, -⟩ := hsteady
  obtain ⟨performed, hmem, hissues⟩ := h
  exact ⟨performed, hadded ▸ List.mem_append_right added hmem, hissues⟩

/-- A calm program keeps what it was started with. -/
theorem fence_calm {program : Act α}
    (huses : program.Uses (Calm kind)) (hkept : Kept kind thread hold) (hstate : hold state) :
    FenceSafe kind thread program (fun _ ↦ hold) (fun _ ↦ hold) state := by
  refine safe_of_uses huses (fun before after hrely _ ↦ hkept.stable before after hrely) ?_ hstate
  intro op hcalm before hinv _ hhold choice answer after hperform
  have hop : ∀ record, op ≠ .remoteAppend record := by
    rintro record rfl
    exact hcalm
  obtain ⟨hafter, hguar⟩ := hinv.perform hop
    (fun actionId hcreates ↦ by rw [hcalm.creates] at hcreates; cases hcreates) hperform
  exact ⟨hguar, hafter, hkept.step op hcalm before after answer
    (Machine.traced_perform.mp hperform).2 hhold⟩

theorem fence_then {program : Act α} {next : α → Act β} {post : β → World × Log → Prop}
    (huses : program.Uses (Calm kind))
    (hkept : Kept kind thread hold) (hinv : Fenced kind state) (hstate : hold state)
    (h : ∀ value after, Fenced kind after → hold after →
      FenceSafe kind thread (next value) post (fun _ _ ↦ True) after) :
    FenceSafe kind thread (program >>= next) post (fun _ _ ↦ True) state :=
  safe_bind ((fence_calm huses hkept hstate).mono (fun value after hafter hhold ↦
    h value after hafter hhold) fun _ _ _ _ ↦ trivial) hinv

theorem fence_local {program : Act α} {next : α → Act β} {post : β → World × Log → Prop}
    (huses : program.Uses (Local AnyRecord))
    (hkept : Kept kind thread hold) (hinv : Fenced kind state) (hstate : hold state)
    (h : ∀ value after, Fenced kind after → hold after →
      FenceSafe kind thread (next value) post (fun _ _ ↦ True) after) :
    FenceSafe kind thread (program >>= next) post (fun _ _ ↦ True) state :=
  fence_then (huses.mono Local.calm) hkept hinv hstate h

/-- A query, then the rest with its answer. -/
theorem fence_ask {question : Query} {next : question.Ans → Act β} {post : β → World × Log → Prop}
    (hkept : Kept kind thread hold) (hstate : hold state)
    (h : ∀ after, Fenced kind after → hold after →
      FenceSafe kind thread (next (question.answer after.1.projection)) post (fun _ _ ↦ True)
        after) : FenceSafe kind thread (ask question >>= next) post (fun _ _ ↦ True) state := by
  refine fence_await (fun _ hop ↦ by cases hop) (fun _ _ _ _ _ hcreates ↦ by cases hcreates) ?_
  intro before hrely hbefore choice answer after hperform hafter
  obtain ⟨hworld, hlog⟩ := Machine.traced_perform.mp hperform
  have hworld : some (question.answer before.1.projection, before.1) = some (answer, after.1) :=
    hworld
  obtain ⟨hanswer, hsame⟩ := Prod.mk.inj (Option.some.inj hworld)
  rw [← hanswer, hsame]
  exact h after hafter (hkept.step (.query question) trivial before after answer hlog
    (hkept.stable state before hrely hstate))

/-- A call of the port, then a calm rest. The call is licensed when the thread has not called for the
action and owns the fence; what is owned may be known from the run. -/
theorem fence_callPort {method : PortMethod} {adoptionOnly : Bool}
    {next : Except PortError PortOutput → Act β}
    (howned : intent.actionKind = kind → adoptionOnly = false →
      kind = .jobLaunch → Owned thread intent.actionId state.2)
    (hunused : intent.actionKind = kind → adoptionOnly = false →
      Unused kind thread intent.actionId state.2)
    (hnext : ∀ answer, (next answer).Uses (Local AnyRecord)) :
    FenceSafe kind thread (callPort method intent adoptionOnly >>= next) (fun _ _ ↦ True)
      (fun _ _ ↦ True) state := by
  refine fence_await (fun _ hop ↦ by cases hop) ?_ fun _ _ _ _ answer after _ hafter ↦
    fence_calm ((hnext answer).mono Local.calm) kept_true trivial
  intro before hrely _ hok actionId hcreates
  have hcall := hcreates
  simp only [creates, Bool.and_eq_true, decide_eq_true_eq, Bool.not_eq_true'] at hcall
  obtain ⟨⟨hkind, rfl⟩, hadoption⟩ := hcall
  refine ⟨?_, (kept_unused _).stable state before hrely (hunused hkind hadoption)⟩
  by_cases hlaunch : kind = .jobLaunch
  · exact owned_stable hrely (howned hkind hadoption hlaunch)
  · exact hok hlaunch _ hcreates

/-! ### Dispatching -/

/-- What a thread knows that created a dispatch record. -/
def Winner (kind : ActionKind) (thread : ℕ) (actionId : String) (created : Bool)
    (state : World × Log) : Prop :=
  created = true → Owned thread actionId state.2 ∧ Unused kind thread actionId state.2

theorem safe_winner {actionId : String} {created : Bool} {value : β}
    (flag : β → Bool) (hflag : flag value = created) (h : Winner kind thread actionId created state) :
    FenceSafe kind thread (.ret value : Act β)
      (fun value ↦ Winner kind thread actionId (flag value)) (fun _ _ ↦ True) state := by
  refine safe_ret fun after hrely _ ↦ ?_
  rw [hflag]
  intro hcreated
  obtain ⟨howned, hunused⟩ := h hcreated
  exact ⟨owned_stable hrely howned, (kept_unused _).stable state after hrely hunused⟩

/-- The append of a dispatch record says truly whether this thread created it. -/
theorem appendAdopting_fence {record : ActionDispatch} {equivalent : ActionDispatch → Bool} :
    FenceSafe kind thread (appendAdopting .actionDispatch asDispatch record equivalent)
      (fun result ↦ Winner kind thread record.actionId result.1) (fun _ _ ↦ True) state := by
  refine fence_await (fun _ hop ↦ by cases hop) (fun _ _ _ _ _ hcreates ↦ by cases hcreates) ?_
  intro before hrely hbefore choice answer after hperform hafter
  obtain ⟨hworld, hlog⟩ := Machine.traced_perform.mp hperform
  have happend : before.1.append (.actionDispatch record) = (answer, after.1) :=
    Option.some.inj hworld
  cases answer with
  | ok created =>
    refine safe_winner Prod.fst rfl fun hcreated ↦ ?_
    subst hcreated
    have hissues : Issues record.actionId
        ⟨thread, .append (.actionDispatch record), .ok true⟩ := ⟨thread, record, rfl, rfl⟩
    have hunused : Unused kind thread record.actionId before.2 :=
      hbefore.unused (issue_spec hbefore.synced happend).1
    refine ⟨⟨_, hlog ▸ List.mem_cons_self, hissues, rfl⟩, ?_⟩
    exact (kept_unused _).step (.append (.actionDispatch record)) trivial before after _ hlog hunused
  | error error =>
    cases error with
    | immutableConflict key =>
      change FenceSafe kind thread (readRecord (Record.actionDispatch record).key >>= _) _ _ after
      refine fence_local (uses_readRecord _) kept_true hafter trivial fun existing last hlast _ ↦ ?_
      split
      · exact safe_throw fun _ _ _ ↦ trivial
      · split
        · refine fence_local uses_syncProjection kept_true hlast trivial fun _ final _ _ ↦ ?_
          exact safe_winner Prod.fst rfl nofun
        · exact safe_throw fun _ _ _ ↦ trivial
    | _ => exact safe_throw fun _ _ _ ↦ trivial

theorem dispatchAction_fence {adoptionNotBefore : ℕ} :
    FenceSafe kind thread (dispatchAction intent adoptionNotBefore)
      (fun result ↦ Winner kind thread intent.actionId result.2) (fun _ _ ↦ True) state := by
  unfold dispatchAction
  split
  · exact safe_throw fun _ _ _ ↦ trivial
  refine fence_ask kept_true trivial fun after hafter _ ↦ ?_
  split
  · exact safe_winner Prod.snd rfl nofun
  refine fence_local uses_now kept_true hafter trivial fun createdAt last hlast _ ↦ ?_
  refine safe_bind (appendAdopting_fence.mono ?_ fun _ _ _ _ ↦ trivial) hlast
  rintro ⟨created, dispatch⟩ final _ hwinner
  exact safe_winner Prod.snd rfl hwinner

/-! ### The reconciler -/

/-- The kinds of actions with a fence that is to be passed once. -/
def onceKinds : List ActionKind := [.jobLaunch, .sandboxCreate, .sandboxExec]

/-- A program that returns or throws whatever it likes. -/
abbrev FenceRuns (kind : ActionKind) (thread : ℕ) (program : Act α) (state : World × Log) : Prop :=
  FenceSafe kind thread program (fun _ _ ↦ True) (fun _ _ ↦ True) state

theorem fence_done {program : Act α}
    (huses : program.Uses (Local AnyRecord)) : FenceRuns kind thread program state :=
  fence_calm (huses.mono Local.calm) kept_true trivial

theorem createJob_fence
    (hinv : Fenced kind state) : FenceRuns kind thread (createJob options intent) state := by
  refine fence_local uses_now kept_true hinv trivial fun time after hafter _ ↦ ?_
  refine safe_bind (dispatchAction_fence.mono ?_ fun _ _ _ _ ↦ trivial) hafter
  rintro ⟨dispatch, created⟩ last hlast hwinner
  cases created with
  | false => exact fence_done trivial
  | true =>
    obtain ⟨howned, hunused⟩ := hwinner rfl
    refine fence_callPort (fun _ _ _ ↦ howned) (fun _ _ ↦ hunused) fun answer ↦ ?_
    split <;> trivial

theorem calm_adoption {method : PortMethod} {next : Except PortError PortOutput → Act β}
    (h : ∀ answer after, Fenced kind after → FenceRuns kind thread (next answer) after)
    (hinv : Fenced kind state) :
    FenceRuns kind thread (callPort method intent true >>= next) state :=
  fence_then ⟨.inr rfl, fun _ ↦ trivial⟩ kept_true hinv trivial
    fun answer after hafter _ ↦ h answer after hafter

theorem handleJobLaunch_fence (hinv : Fenced kind state) :
    FenceRuns kind thread (handleJobLaunch options intent) state := by
  have hexecute : ∀ suppression after, Fenced kind after →
      FenceRuns kind thread (executeJobLaunch options intent suppression) after := by
    intro suppression after hafter
    refine fence_ask kept_true trivial fun last hlast _ ↦ ?_
    split
    · refine fence_local uses_now kept_true hlast trivial fun time final hfinal _ ↦ ?_
      split
      · exact fence_done trivial
      · refine calm_adoption (fun answer final' hfinal' ↦ ?_) hfinal
        split <;> exact fence_done trivial
    · refine calm_adoption (fun answer final hfinal ↦ ?_) hlast
      split
      · exact fence_done trivial
      · exact fence_done trivial
      · exact createJob_fence hfinal
      · exact fence_done trivial
  have hterminal : (allActionTasksTerminal intent).Uses (Local AnyRecord) := by
    refine uses_bind (uses_ofExcept _) fun taskIds ↦ ?_
    split
    · trivial
    · induction taskIds with
      | nil => trivial
      | cons taskId rest ih =>
        refine uses_bind (uses_ask _) fun task ↦ ?_
        split
        · trivial
        · cases rest with
          | nil => trivial
          | cons next others => exact ih (by simp)
  refine fence_local (uses_ask _) kept_true hinv trivial fun cancelled after hafter _ ↦
    fence_local hterminal kept_true hafter trivial fun terminal last hlast _ ↦ ?_
  dsimp only
  split
  · exact hexecute _ last hlast
  · refine fence_local (uses_ask _) kept_true hlast trivial fun dispatch final hfinal _ ↦ ?_
    split
    · exact fence_done trivial
    · exact hexecute _ final hfinal

/-- A Sandbox action of the reconciler calls the port under its licence, if the thread has not called
for it where it found no dispatch record. -/
theorem executeSandbox_fence {adoptionOnly : Bool} (hkind : intent.actionKind ≠ .jobLaunch)
    (hunused : intent.actionKind = kind → adoptionOnly = false →
      Unused kind thread intent.actionId state.2) :
    FenceRuns kind thread (executeSandbox intent adoptionOnly) state := by
  refine fence_callPort (fun hsame _ hlaunch ↦ absurd (hsame.trans hlaunch) hkind) hunused ?_
  intro answer
  split
  · trivial
  · split
    · exact uses_bind (uses_bind (uses_ask _) fun _ ↦ trivial) fun _ ↦ trivial
    · trivial
  · trivial
  · trivial

theorem uses_fenceSandbox {allowed : Record → Prop} (h : Books allowed) (options : ReconcilerOptions)
    (intent : ActionIntent) (dispatch : Option ActionDispatch) :
    (fenceSandbox options intent dispatch).Uses (Local allowed) := by
  cases dispatch with
  | some record => trivial
  | none =>
    exact uses_bind uses_now fun _ ↦
      uses_bind (uses_dispatchAction fun _ _ ↦ h.dispatch _) fun _ ↦ trivial

/-- The reconciler calls the port for a create without restriction only when it found no dispatch
record, so it had not called before. -/
theorem handleSandbox_fence (hkind : kind ∈ onceKinds)
    (hsandbox : intent.actionKind ∈ [ActionKind.sandboxCreate, .sandboxObserve, .sandboxClose])
    (hinv : Fenced kind state) : FenceRuns kind thread (handleSandbox options intent) state := by
  have hreserved : (sandboxReserved intent).Uses (Local AnyRecord) := by
    unfold sandboxReserved
    split
    · split
      · trivial
      · refine uses_bind (uses_ask _) fun reservation ↦ ?_
        split
        · trivial
        · split <;> trivial
    · trivial
  have hcreate : intent.actionKind = kind → intent.actionKind = .sandboxCreate := by
    rintro rfl
    simp only [onceKinds, List.mem_cons, List.not_mem_nil, or_false] at hkind hsandbox
    rcases hsandbox with h | h | h
    · exact h
    · simp [h] at hkind
    · simp [h] at hkind
  have hlaunch : intent.actionKind ≠ .jobLaunch := by
    intro h
    simp [h] at hsandbox
  refine fence_local hreserved kept_true hinv trivial fun reserved after hafter _ ↦ ?_
  split
  · exact fence_done trivial
  refine fence_ask kept_true trivial fun last hlast _ ↦ ?_
  cases hdispatch : Query.answer last.1.projection (.actionDispatch intent.actionId) with
  | some record =>
    refine fence_local uses_now kept_true hlast trivial fun time middle hmiddle _ ↦ ?_
    split
    · exact fence_done trivial
    refine fence_local (uses_fenceSandbox books_any _ _ _) kept_true hmiddle trivial fun _ next hnext _ ↦
      fence_local uses_now kept_true hnext trivial fun later final hfinal _ ↦ ?_
    split
    · exact fence_done trivial
    · refine executeSandbox_fence hlaunch fun hsame hadoption ↦ ?_
      simp [hcreate hsame] at hadoption
  | none =>
    have hunused : Unused kind thread intent.actionId last.2 :=
      hlast.unused (lookup_eq_none.mp hdispatch)
    refine fence_local uses_now (kept_unused _) hlast hunused fun time middle hmiddle hheld ↦ ?_
    split
    · exact fence_done trivial
    refine fence_local (uses_fenceSandbox books_any _ _ _) (kept_unused _) hmiddle hheld fun _ next hnext hheld ↦
      fence_local uses_now (kept_unused _) hnext hheld fun later final hfinal hheld ↦ ?_
    split
    · exact fence_done trivial
    · exact executeSandbox_fence hlaunch fun _ _ ↦ hheld

theorem executeExternal_fence {next : ExternalActionResult → Act β}
    (hkind : kind ∈ onceKinds) (hother : intent.actionKind ∉ onceKinds)
    (hinv : Fenced kind state) (hnext : ∀ result, (next result).Uses (Local AnyRecord)) :
    FenceRuns kind thread (executeExternal intent >>= next) state := by
  have hne : intent.actionKind ≠ kind := fun h ↦ hother (h ▸ hkind)
  refine fence_then (uses_bind ⟨.inl hne, fun _ ↦ trivial⟩ fun answer ↦ ?_) kept_true hinv trivial
    fun result after _ _ ↦ fence_done (hnext result)
  split <;> trivial

theorem uses_publish {allowed : Record → Prop} (h : ∀ record, allowed (.publicationReceipt record))
    (campaignId : String) : (publish campaignId).Uses (Local allowed) := by
  refine uses_bind (uses_ask _) fun existing ↦ ?_
  split
  · trivial
  refine uses_bind (uses_ask _) fun campaign ↦ ?_
  split
  · trivial
  · exact ⟨trivial, fun answer ↦ uses_bind (uses_ofExcept _) fun parts ↦
      uses_bind (uses_append (h _)) fun _ ↦ trivial⟩

theorem resultOf_fence (hkind : kind ∈ onceKinds) (hinv : Fenced kind state) :
    FenceRuns kind thread (resultOf options intent) state := by
  unfold resultOf
  split
  case h_1 => exact fence_done (uses_bind (uses_publish (fun _ ↦ trivial) _) fun _ ↦ trivial)
  case h_2 => exact fence_done trivial
  case h_3 => exact handleJobLaunch_fence hinv
  case h_4 h => exact executeExternal_fence hkind (h ▸ by decide) hinv fun _ ↦ trivial
  case h_5 => exact fence_done trivial
  case h_6 => exact fence_done trivial
  case h_7 => exact fence_done trivial
  case h_8 h => exact handleSandbox_fence hkind (by simp [h]) hinv
  case h_9 h => exact handleSandbox_fence hkind (by simp [h]) hinv
  case h_10 h => exact handleSandbox_fence hkind (by simp [h]) hinv
  case h_11 h => exact executeExternal_fence hkind (h ▸ by decide) hinv fun _ ↦ trivial
  case h_12 h => exact executeExternal_fence hkind (h ▸ by decide) hinv fun _ ↦ trivial
  case h_13 h => exact executeExternal_fence hkind (h ▸ by decide) hinv fun _ ↦ trivial
  case h_14 h => exact executeExternal_fence hkind (h ▸ by decide) hinv fun _ ↦ trivial

theorem uses_followUp (options : ReconcilerOptions) (intent : ActionIntent)
    (receipt : ActionReceipt) : (do
      advance options intent receipt
      let _ ← markAdvanced intent receipt
      return () : Act Unit).Uses (Local AnyRecord) :=
  uses_bind ((uses_advance _ _ _).mono (Local.mono fun _ _ ↦ trivial)) fun _ ↦
    uses_bind (uses_markAny books_any _ _) fun _ ↦ trivial

theorem tick_fence (hkind : kind ∈ onceKinds)
    (hinv : Fenced kind state) : FenceRuns kind thread (tick options) state := by
  refine fence_local uses_syncProjection kept_true hinv trivial fun _ after hafter _ ↦
    fence_local (uses_ask _) kept_true hafter trivial fun unadvanced last hlast _ ↦ ?_
  refine fence_local (uses_forM fun entry _ ↦ uses_followUp _ _ _) kept_true hlast trivial
    fun _ next hnext _ ↦ fence_local (uses_ask _) kept_true hnext trivial
      fun pending final hfinal _ ↦ ?_
  have hloop : FenceRuns kind thread (pending.forM (handlePending options)) final := by
    refine safe_forM (fun _ _ _ _ _ ↦ trivial) (fun intent _ before hbefore _ ↦ ?_) hfinal trivial
    refine fence_local uses_now kept_true hbefore trivial fun time middle hmiddle _ ↦ ?_
    split
    · exact fence_done trivial
    · refine safe_bind ((resultOf_fence hkind hmiddle).mono ?_ fun _ _ _ _ ↦ trivial) hmiddle
      intro result last hlast _
      split
      · exact fence_done trivial
      · exact fence_local (uses_receipt fun _ ↦ trivial) kept_true hlast trivial
          fun record _ _ _ ↦ fence_done (uses_followUp _ _ _)
  refine safe_bind (hloop.mono (fun _ last hlast _ ↦ ?_) fun _ _ _ _ ↦ trivial) hfinal
  exact fence_done (uses_bind (uses_ask _) fun campaigns ↦ uses_forM fun campaign _ ↦
    uses_bind ((uses_maybePublish _ _).mono (Local.mono fun _ _ ↦ trivial)) fun _ ↦ trivial)

/-! ### Requests -/

/-- A request as a thread: what it returns is sent to its caller. -/
def served (request : Act α) : Act Unit := do
  let _ ← request
  return ()

theorem fence_served {request : Act α}
    (h : FenceRuns kind thread request state) (hinv : Fenced kind state) :
    FenceRuns kind thread (served request) state :=
  safe_bind (h.mono (fun _ _ _ _ ↦ fence_done trivial) fun _ _ _ _ ↦ trivial) hinv

theorem gateway_fence {method : PortMethod} {adoptionOnly : Bool}
    {next : Except PortError PortOutput → Act SandboxOutput}
    (hkind : intent.actionKind ≠ .jobLaunch) (hunused : Unused kind thread intent.actionId state.2)
    (hnext : ∀ answer, (next answer).Uses (Local AnyRecord)) :
    FenceRuns kind thread (callPort method intent adoptionOnly >>= next) state :=
  fence_callPort (fun hsame _ hlaunch ↦ absurd (hsame.trans hlaunch) hkind) (fun _ _ ↦ hunused) hnext

/-- A request that has not called the port for its action calls it at most once. -/
theorem executeSandboxAction_fence {replaySafe ownsDispatch : Bool}
    {execute : ActionIntent → Bool → Act SandboxOutput}
    (hinv : Fenced kind state) (hunused : Unused kind thread intent.actionId state.2)
    (hexecute : ∀ adoptionOnly after, Fenced kind after →
      Unused kind thread intent.actionId after.2 →
        FenceRuns kind thread (execute intent adoptionOnly) after) :
    FenceRuns kind thread (executeSandboxAction intent replaySafe execute ownsDispatch) state := by
  refine fence_local (uses_ask _) (kept_unused _) hinv hunused fun existing after hafter hheld ↦ ?_
  refine fence_local ⟨trivial, fun _ ↦ trivial⟩ (kept_unused _) hafter hheld
    fun stored last hlast hheld ↦ ?_
  split
  · refine fence_done (uses_bind (uses_writeAction trivial) fun _ ↦ ?_)
    split
    · trivial
    · exact uses_bind (uses_settleAction books_any fun _ ↦ trivial) fun _ ↦ trivial
  split
  · exact fence_done trivial
  refine fence_local (uses_ask _) (kept_unused _) hlast hheld fun dispatched next hnext hheld ↦
    fence_local (uses_writeAction trivial) (kept_unused _) hnext hheld fun _ middle hmiddle hheld ↦ ?_
  split
  · exact fence_done trivial
  refine fence_local uses_now (kept_unused _) hmiddle hheld fun time final hfinal hheld ↦
    fence_local (uses_dispatchAction fun _ _ ↦ trivial) (kept_unused _) hfinal hheld
      fun _ ready hready hheld ↦ ?_
  refine safe_bind ((hexecute _ ready hready hheld).mono ?_ fun _ _ _ _ ↦ trivial) hready
  intro output _ _ _
  exact fence_done (uses_bind ⟨trivial, fun answer ↦ uses_ofExcept answer⟩ fun _ ↦
    uses_bind (uses_settleAction books_any fun _ ↦ trivial) fun _ ↦ trivial)

/-- The intent of a request has the kind that was asked for. -/
theorem fence_requestIntent {request : SandboxRequest} {action : ActionKind} {target : String}
    {payload : ActionPayload} {next : ActionIntent → Act β}
    (hkept : Kept kind thread hold) (hinv : Fenced kind state) (hstate : hold state)
    (h : ∀ intent after, intent.actionKind = action → Fenced kind after → hold after →
      FenceRuns kind thread (next intent) after) :
    FenceRuns kind thread (requestIntent request action target payload >>= next) state := by
  unfold requestIntent
  cases requireIdempotencyKey request with
  | error error => exact fence_done trivial
  | ok key =>
    change FenceRuns kind thread (now >>= fun timestamp ↦ next (actionIntent request.campaignId action
      (target ++ ":" ++ keySuffix key) 0 payload request.actor timestamp)) state
    exact fence_local uses_now hkept hinv hstate fun timestamp after hafter hheld ↦
      h _ after rfl hafter hheld

omit [Digests] in
theorem kept_unusedAll :
    Kept kind thread fun state ↦ ∀ actionId, Unused kind thread actionId state.2 where
  stable before after hsteady h actionId :=
    (kept_unused actionId).stable before after hsteady (h actionId)
  step op hcalm before after answer hlog h actionId :=
    (kept_unused actionId).step op hcalm before after answer hlog (h actionId)

theorem createRoute_fence {derive : PreparedPolicy} {request : SandboxRequest}
    (hinv : Fenced kind state) (hunused : ∀ actionId, Unused kind thread actionId state.2) :
    FenceRuns kind thread (served (createRoute derive request)) state := by
  refine fence_served ?_ hinv
  refine fence_local (uses_loadSandboxContext _ _ _ _) kept_unusedAll hinv hunused
    fun context after hafter hheld ↦ ?_
  refine fence_requestIntent kept_unusedAll hafter hheld fun candidate last _ hlast hheld ↦
    fence_local (uses_admitSandboxCreate _ books_any trivial fun _ _ ↦ trivial) kept_unusedAll hlast hheld
      fun created next hnext hheld ↦
        fence_requestIntent kept_unusedAll hnext hheld fun intent final hkind hfinal hheld ↦ ?_
  refine executeSandboxAction_fence hfinal (hheld _) fun adoptionOnly ready _ hready ↦ ?_
  refine gateway_fence (by simp [hkind]) hready fun answer ↦ ?_
  split <;> trivial

theorem execRoute_fence {derive : PreparedPolicy} {request : SandboxRequest} {sandboxId : String}
    {body : CommandBody} (hinv : Fenced kind state)
    (hunused : ∀ actionId, Unused kind thread actionId state.2) :
    FenceRuns kind thread (served (execRoute derive request sandboxId body)) state := by
  refine fence_served ?_ hinv
  refine fence_local (uses_loadSandboxContext _ _ _ _) kept_unusedAll hinv hunused
    fun context after hafter hheld ↦
      fence_local (uses_ofExcept _) kept_unusedAll hafter hheld fun _ last hlast hheld ↦ ?_
  split
  · exact fence_done trivial
  refine fence_requestIntent kept_unusedAll hlast hheld fun candidate middle _ hmiddle hheld ↦
    fence_local (uses_admitSandboxCommand _ trivial) kept_unusedAll hmiddle hheld
      fun _ next hnext hheld ↦
        fence_requestIntent kept_unusedAll hnext hheld fun intent final hkind hfinal hheld ↦ ?_
  refine executeSandboxAction_fence hfinal (hheld _) fun adoptionOnly ready _ hready ↦ ?_
  refine gateway_fence (by simp [hkind]) hready fun answer ↦ ?_
  split <;> trivial

/-! ### Runs -/

/-- The programs of a run: ticks of the reconciler, an operator's cancellations and other actions,
requests for Sandboxes and for commands, and any program that never calls the port for an action of
this kind. -/
inductive FenceProgram (kind : ActionKind) : Act Unit → Prop
  | tick (options : ReconcilerOptions) : FenceProgram kind (tick options)
  | operator (campaignId : String) (input : CampaignActionInput) (idempotencyKey : String)
      (actor : Actor) : FenceProgram kind (served (campaignAction campaignId input idempotencyKey actor))
  | create (derive : PreparedPolicy) (request : SandboxRequest) :
      FenceProgram kind (served (createRoute derive request))
  | exec (derive : PreparedPolicy) (request : SandboxRequest) (sandboxId : String)
      (body : CommandBody) : FenceProgram kind (served (execRoute derive request sandboxId body))
  | other {program : Act Unit} (hcalm : program.Uses (Calm kind)) : FenceProgram kind program

/-- The runs of these programs from a restart, with any number of threads and crashes, in which a
thread that calls the port owns the fence if `Honoured` says so. -/
def FenceRun (kind : ActionKind) : Config interface ServiceError ThreadRole World → Prop :=
  Reachable machine ThreadRole.conflict Booted (fun _ program ↦ FenceProgram kind program)
    (fun config thread op ↦ Honoured kind thread config.trace op)

theorem fenced_of_booted {world : World} (h : Booted world) : Fenced kind (world, []) := by
  obtain ⟨stored, hrestart⟩ := h
  exact ⟨World.synced_of_restart hrestart, fun _ h ↦ absurd h List.not_mem_nil,
    fun _ h ↦ absurd h List.not_mem_nil, fun _ h ↦ absurd h List.not_mem_nil,
    fun _ h ↦ absurd h List.not_mem_nil, fun _ ↦ Nat.zero_le 1⟩

/-- The tables that a restart reads back hold every stored dispatch record. -/
theorem Fenced.restart {state state' : World × Log} (h : Fenced kind state)
    (hrestart : machine.traced.restart state = some state') : Fenced kind state' := by
  obtain ⟨world, log⟩ := state
  obtain ⟨world', log'⟩ := state'
  obtain ⟨hworld, hlog⟩ := Machine.traced_restart.mp hrestart
  simp only at hworld hlog
  subst hlog
  have hsynced := World.synced_of_restart hworld
  obtain ⟨-, -, -, rfl⟩ := World.restart_eq_some.mp hworld
  refine ⟨hsynced, h.stored, ?_, h.issuer, h.owned, h.once⟩
  intro performed hmem actionId hissues
  obtain ⟨record, hrecord, hname⟩ := h.stored performed hmem actionId hissues
  refine ⟨record, ?_, hname⟩
  change record ∈ (extendAll (world.store.records.insertionSort PathOrder) {}).dispatches
  rw [table_extendAll Projection.dispatches dispatchOf (fun _ _ ↦ rfl)]
  refine List.mem_append_right _ (List.mem_filterMap.mpr ⟨.actionDispatch record, ?_, rfl⟩)
  exact (List.mem_insertionSort _).mpr hrecord

theorem fence_compatible : Compatible machine.traced ThreadRole.conflict (Fenced kind)
      (fun index state ↦ ∀ performed ∈ state.2, performed.thread ≠ index)
      (fun _ index ↦ fenceContract kind index) where
  symm role role' := by cases role <;> cases role' <;> rfl
  rely_of_guar hne _ _ _ hguar := hguar _ (Ne.symm hne)
  idle_of_guar hne hguar hidle := by
    obtain ⟨-, added, hadded, hothers⟩ := hguar _ (Ne.symm hne)
    intro performed hmem
    rw [hadded] at hmem
    rcases List.mem_append.mp hmem with hnew | hold
    · exact hothers performed hnew
    · exact hidle performed hold
  restart hinv hrestart := by
    refine ⟨hinv.restart hrestart, fun index hidle ↦ ?_⟩
    rw [(Machine.traced_restart.mp hrestart).2]
    exact hidle

/-- Every run keeps the fences of a kind that is to be passed once. -/
theorem FenceRun.fenced (hkind : kind ∈ onceKinds)
    {config : Config interface ServiceError ThreadRole World} (h : FenceRun kind config) :
    Fenced kind (config.state, config.trace) := by
  refine (reachable_sound fence_compatible ?_ ?_ ?_ (reachable_traced h)).holds
  · rintro ⟨world, log⟩ ⟨hboot, hlog⟩
    simp only at hlog
    subst hlog
    exact ⟨fenced_of_booted hboot, fun _ _ hmem ↦ absurd hmem List.not_mem_nil⟩
  · intro role program hprogram index state hstate hidle
    have hunused : ∀ actionId, Unused kind index actionId state.2 :=
      fun actionId performed hmem _ ↦ hidle performed hmem
    cases hprogram with
    | tick options => exact tick_fence hkind hstate
    | operator campaignId input idempotencyKey actor =>
      exact fence_done (uses_bind (uses_campaignAction _ _ _ _) fun _ ↦ trivial)
    | create derive request => exact createRoute_fence hstate hunused
    | exec derive request sandboxId body => exact execRoute_fence hstate hunused
    | other hcalm => exact fence_calm hcalm kept_true trivial
  · rintro config index role op resume - ⟨hok, hlog⟩
    change Honoured kind index config.state.2 op
    rw [hlog]
    exact hok

/-- The runs of these programs under no condition. -/
def FreeRun (kind : ActionKind) : Config interface ServiceError ThreadRole World → Prop :=
  Reachable machine ThreadRole.conflict Booted (fun _ program ↦ FenceProgram kind program)
    (fun _ _ _ ↦ True)

/-- The Job of a launch is created at most once, over all ticks, cancellations, crashes and
restarts. -/
theorem job_created_once {config : Config interface ServiceError ThreadRole World}
    (h : FreeRun .jobLaunch config) (actionId : String) :
    creations .jobLaunch actionId config.trace ≤ 1 := by
  have hrun : FenceRun .jobLaunch config :=
    h.mono (fun _ hstart ↦ hstart) (fun _ _ hentry ↦ hentry) fun _ _ _ _ hlaunch ↦ absurd rfl hlaunch
  exact (hrun.fenced (by decide)).once actionId

/-- A Sandbox is created at most once in every run in which a thread that calls the port for it is the
one that created its dispatch record. -/
theorem sandbox_created_once {config : Config interface ServiceError ThreadRole World}
    (h : FenceRun .sandboxCreate config) (actionId : String) :
    creations .sandboxCreate actionId config.trace ≤ 1 := (h.fenced (by decide)).once actionId

/-- A command is executed at most once in every run in which a request that executes it is the one
that created its dispatch record. -/
theorem command_executed_once {config : Config interface ServiceError ThreadRole World}
    (h : FenceRun .sandboxExec config) (actionId : String) :
    creations .sandboxExec actionId config.trace ≤ 1 := (h.fenced (by decide)).once actionId

end

/-! ### Runs at the fence

A launch goes through its fence once. A Sandbox whose request is slow is created by the request and by
the reconciler: both found no dispatch record, and the reconciler goes on although its append did not
create it. Two requests for one command do the same. -/

section

local instance fenceDigests : Digests := plainDigests

/-- Whether the log says that a thread created the dispatch record of an action. -/
def owns (thread : ℕ) (actionId : String) (log : Log) : Bool :=
  log.any fun performed ↦ match performed with
    | ⟨issuer, .append (.actionDispatch record), .ok true⟩ =>
      decide (issuer = thread ∧ record.actionId = actionId)
    | _ => false

theorem owned_of_owns {thread : ℕ} {actionId : String} {log : Log}
    (h : owns thread actionId log = true) : Owned thread actionId log := by
  obtain ⟨performed, hmem, hissues⟩ := List.any_eq_true.mp h
  split at hissues
  · next issuer record =>
    obtain ⟨rfl, rfl⟩ := of_decide_eq_true hissues
    exact ⟨_, hmem, ⟨issuer, record, rfl, rfl⟩, rfl⟩
  · cases hissues

/-- The check of a run that a thread which calls the port owns the fence. -/
def honours (kind : ActionKind) (config : Config interface ServiceError ThreadRole World)
    (thread : ℕ) : Op → Bool
  | .port call =>
    !creates kind call.intent.actionId (.port call) || owns thread call.intent.actionId config.trace
  | _ => true

theorem honoured_of_honours {kind : ActionKind}
    (config : Config interface ServiceError ThreadRole World) (thread : ℕ) (op : Op)
    (h : honours kind config thread op = true) : Honoured kind thread config.trace op := by
  intro _ actionId hcreates
  cases op with
  | port call =>
    have hname : call.intent.actionId = actionId := by
      simp only [creates, Bool.and_eq_true, decide_eq_true_eq] at hcreates
      exact hcreates.1.2
    subst hname
    simp only [honours, hcreates, Bool.not_true, Bool.false_or] at h
    exact owned_of_owns h
  | _ => cases hcreates

def fencePolicy : SandboxPolicy := ⟨50, 1, 1, 1, 1, 1, ["/"], ""⟩

def fenceDeployment : HfJobDeployment :=
  ⟨"", [], "", 1, true, none, false, "", some fencePolicy, none, none, false, none, none, ""⟩

/-- The lock of a campaign that authorizes Sandboxes. -/
def fenceLock : CampaignLock :=
  { sampleLock with profiles := [⟨.deployment, "", "", .hfJob fenceDeployment⟩] }

/-- A store of these records, after a restart. -/
def fenceWorld (records : List Record) : World :=
  ⟨⟨records, [], []⟩, { extendAll records {} with ready := true }, []⟩

def launchWorld : World := fenceWorld [.actionIntent sampleLaunch, .campaignLock fenceLock]

def createWorld : World := fenceWorld [.campaignLock fenceLock]

def commandWorld : World :=
  fenceWorld [.actionIntent sampleCreate, .actionReceipt (receiptRecord sampleCreate
    { outcome := .completed, observedState := "", resourceId := some "r" } 3),
    .campaignLock fenceLock]

theorem fenceWorlds_restart : launchWorld.restart = some launchWorld ∧
    createWorld.restart = some createWorld ∧ commandWorld.restart = some commandWorld := by
  decide +kernel

theorem launchWorld_booted : Booted launchWorld := ⟨_, fenceWorlds_restart.1⟩

theorem createWorld_booted : Booted createWorld := ⟨_, fenceWorlds_restart.2.1⟩

theorem commandWorld_booted : Booted commandWorld := ⟨_, fenceWorlds_restart.2.2⟩

def fenceRequest : SandboxRequest :=
  ⟨⟨"l", "c", ["t"], recordDigest (.campaignLock fenceLock), [.sandboxCreate, .sandboxExec]⟩, "c",
    "t", "a key of the worker"⟩

def requestSandbox : Act Unit := served (createRoute (fun _ _ ↦ .error "") fenceRequest)

def requestCommand : Act Unit :=
  served (execRoute (fun _ _ ↦ .error "") fenceRequest "s" ⟨[], "/", 1⟩)

/-- The action of a request. -/
def requestedAction (kind : ActionKind) (target : String) : String :=
  actionIdOf "c" kind (target ++ ":" ++ keySuffix "a key of the worker") 0

/-- The port does not know the Job. -/
def unknownJob : Choice := { port := .error .notFound }

/-- The time when the reconciler no longer waits for a worker's request. -/
def afterHoldOff : Choice := { now := 30000 }

/-- The reconciler has started, the request reserves the Sandbox, the reconciler reads that there is no
dispatch record, the request writes the record and creates the Sandbox, and the reconciler creates it
again. -/
def slowRequestRun : List (Event interface ServiceError ThreadRole Choice) :=
  (.spawn .reconciler (tick {}) :: List.replicate 2 (.run 0 afterHoldOff)) ++
    (.spawn .api requestSandbox :: List.replicate 16 (.run 1 {})) ++
      List.replicate 5 (.run 0 afterHoldOff) ++ List.replicate 10 (.run 1 {}) ++
        List.replicate 4 (.run 0 afterHoldOff)

/-- Two requests with one key have read that there is no dispatch record; the first writes it and
executes the command, and the second executes it again. -/
def repeatedCommandRun : List (Event interface ServiceError ThreadRole Choice) :=
  .spawn .api requestCommand :: .spawn .api requestCommand :: List.replicate 14 (.run 0 {}) ++
    List.replicate 12 (.run 1 {}) ++ List.replicate 6 (.run 0 {}) ++ List.replicate 4 (.run 1 {})

/-- How often these runs call the port for the action. -/
theorem fence_counts : ((Config.initial launchWorld).run machine ThreadRole.conflict
      (.spawn .reconciler (tick {}) :: List.replicate 13 (.run 0 unknownJob))).map
        (fun config ↦ creations .jobLaunch "l" config.trace) = some 1 ∧
    ((Config.initial createWorld).runChecked machine ThreadRole.conflict (honours .sandboxCreate)
      (.spawn .api requestSandbox :: List.replicate 26 (.run 0 {}))).map (fun config ↦
        creations .sandboxCreate (requestedAction .sandboxCreate "sandbox:t") config.trace) =
          some 1 ∧
    ((Config.initial commandWorld).runChecked machine ThreadRole.conflict (honours .sandboxExec)
      (.spawn .api requestCommand :: List.replicate 20 (.run 0 {}))).map (fun config ↦
        creations .sandboxExec (requestedAction .sandboxExec "sandbox-exec:s") config.trace) =
          some 1 ∧
    ((Config.initial createWorld).run machine ThreadRole.conflict slowRequestRun).map (fun config ↦
      creations .sandboxCreate (requestedAction .sandboxCreate "sandbox:t") config.trace) = some 2 ∧
    ((Config.initial commandWorld).run machine ThreadRole.conflict repeatedCommandRun).map
      (fun config ↦
        creations .sandboxExec (requestedAction .sandboxExec "sandbox-exec:s") config.trace) =
          some 2 := by
  decide +kernel

/-- The tick that launches a Job calls the port once. -/
theorem launch_created_once : ∃ config : Config interface ServiceError ThreadRole World,
    FreeRun .jobLaunch config ∧ creations .jobLaunch "l" config.trace = 1 ∧
      ∀ actionId, creations .jobLaunch actionId config.trace ≤ 1 := by
  obtain ⟨config, hrun, hcount⟩ := Option.map_eq_some_iff.mp fence_counts.1
  have hfree : FreeRun .jobLaunch config := by
    refine reachable_of_run _ (.start launchWorld_booted) ?_ hrun
    exact List.forall_mem_cons.mpr ⟨.tick {}, admitted_runs 13 0 unknownJob⟩
  exact ⟨config, hfree, hcount, job_created_once hfree⟩

/-- The request for a Sandbox that created its dispatch record calls the port once. -/
theorem request_created_once : ∃ config : Config interface ServiceError ThreadRole World,
    FenceRun .sandboxCreate config ∧
      creations .sandboxCreate (requestedAction .sandboxCreate "sandbox:t") config.trace = 1 ∧
        ∀ actionId, creations .sandboxCreate actionId config.trace ≤ 1 := by
  obtain ⟨config, hrun, hcount⟩ := Option.map_eq_some_iff.mp fence_counts.2.1
  have hfence : FenceRun .sandboxCreate config := by
    refine reachable_of_runChecked _ honoured_of_honours (.start createWorld_booted) ?_ hrun
    exact List.forall_mem_cons.mpr ⟨.create _ _, admitted_runs _ _ _⟩
  exact ⟨config, hfence, hcount, sandbox_created_once hfence⟩

/-- The request that created the dispatch record of its command executes it once. -/
theorem request_executed_once : ∃ config : Config interface ServiceError ThreadRole World,
    FenceRun .sandboxExec config ∧
      creations .sandboxExec (requestedAction .sandboxExec "sandbox-exec:s") config.trace = 1 ∧
        ∀ actionId, creations .sandboxExec actionId config.trace ≤ 1 := by
  obtain ⟨config, hrun, hcount⟩ := Option.map_eq_some_iff.mp fence_counts.2.2.1
  have hfence : FenceRun .sandboxExec config := by
    refine reachable_of_runChecked _ honoured_of_honours (.start commandWorld_booted) ?_ hrun
    exact List.forall_mem_cons.mpr ⟨.exec _ _ _ _, admitted_runs _ _ _⟩
  exact ⟨config, hfence, hcount, command_executed_once hfence⟩

/-- A request and the reconciler both call the port for one Sandbox. -/
theorem sandbox_created_twice : ∃ config : Config interface ServiceError ThreadRole World,
    Reachable machine ThreadRole.conflict Booted
      (fun role program ↦ (role = .api ∧ program = requestSandbox) ∨
        (role = .reconciler ∧ program = tick {})) (fun _ _ _ ↦ True) config ∧
      creations .sandboxCreate (requestedAction .sandboxCreate "sandbox:t") config.trace = 2 := by
  obtain ⟨config, hrun, hcount⟩ := Option.map_eq_some_iff.mp fence_counts.2.2.2.1
  refine ⟨config, reachable_of_run _ (.start createWorld_booted) ?_ hrun, hcount⟩
  unfold slowRequestRun
  simp only [List.forall_mem_append, List.forall_mem_cons]
  exact ⟨⟨⟨⟨⟨.inr ⟨rfl, rfl⟩, admitted_runs _ _ _⟩, .inl ⟨rfl, rfl⟩, admitted_runs _ _ _⟩,
    admitted_runs _ _ _⟩, admitted_runs _ _ _⟩, admitted_runs _ _ _⟩

/-- Two requests with one key both execute its command. -/
theorem command_executed_twice : ∃ config : Config interface ServiceError ThreadRole World,
    Reachable machine ThreadRole.conflict Booted
      (fun role program ↦ role = .api ∧ program = requestCommand) (fun _ _ _ ↦ True) config ∧
      creations .sandboxExec (requestedAction .sandboxExec "sandbox-exec:s") config.trace = 2 := by
  obtain ⟨config, hrun, hcount⟩ := Option.map_eq_some_iff.mp fence_counts.2.2.2.2
  refine ⟨config, reachable_of_run _ (.start commandWorld_booted) ?_ hrun, hcount⟩
  unfold repeatedCommandRun
  simp only [List.forall_mem_append, List.forall_mem_cons]
  exact ⟨⟨⟨⟨⟨rfl, rfl⟩, ⟨rfl, rfl⟩, admitted_runs _ _ _⟩, admitted_runs _ _ _⟩,
    admitted_runs _ _ _⟩, admitted_runs _ _ _⟩

end

end HarborHF.Control
