import Mathlib.Data.List.Induction
import HarborHF.Async.Optimistic
import HarborHF.Campaign.Events

/-!
# Cancellation and guarded events

The control repository of a campaign is written by commits that name their parent. Two operations are
guarded against each other: the request to cancel a campaign, which commits an event together with a
marker, and the terminal events of trials, which are committed in batches unless the marker is there.
Both are optimistic loops over the head of the repository, and both adopt an event that is there
already.

`linearized` is what holds of any number of such calls in any interleaving. Both operations refuse to
write once the marker is there, so nothing is committed after the cancellation; what is committed is
the whole of what was missing; and nothing that is there is written again.
-/

set_option autoImplicit false

namespace HarborHF.Campaign

open Relational Async

/-! ### Records of the repository -/

/-- A file of the control repository: an event, the marker of a cancellation, or anything else. -/
inductive ControlRecord
  | event (event : CampaignEvent)
  | cancellation (campaignId eventId : String)
  | unrelated (text : String)
  deriving DecidableEq

/-- What the operations raise. -/
inductive CommitError
  | value (message : String)
  | conflict (message : String)
  | cancellationWon (message : String)
  | control (message : String)
  | http
  deriving DecidableEq

def eventPath (campaignId eventId : String) : String :=
  "campaigns/" ++ campaignId ++ "/events/" ++ eventId ++ ".json"

def campaignCancellationPath (campaignId : String) : String :=
  "campaigns/" ++ campaignId ++ "/cancellation.json"

theorem eventPath_ne_campaignCancellationPath (campaignId eventId : String) :
    eventPath campaignId eventId ≠ campaignCancellationPath campaignId := by
  intro h
  have hlist := congrArg String.toList h
  simp only [eventPath, campaignCancellationPath, String.toList_append, List.append_assoc,
    List.append_cancel_left_eq] at hlist
  simp at hlist

/-- The identifiers of campaigns (`_CAMPAIGN_ID`). -/
def validCampaignId (campaignId : String) : Bool :=
  match campaignId.toList with
  | [] => false
  | first :: rest =>
    first.isAlphanum && decide (rest.length ≤ 99) &&
      rest.all fun char ↦ char.isAlphanum || char == '.' || char == '_' || char == '-'

def validateEventScope (campaignId : String) (event : CampaignEvent) : Except CommitError Unit :=
  if validCampaignId campaignId = false then .error (.value "event campaign scope is invalid")
  else if event.subjectType = .campaign ∧ event.subjectId ≠ campaignId then
    .error (.value "campaign event subject does not match its scope")
  else .ok ()

/-- The kinds of events that reconcilers may record with different clocks
(`_RECONCILER_DURABLE_EVENT_KINDS`). -/
def EventBody.durable : EventBody → Bool
  | .campaignDraining _ => true
  | .manualInterventionRequired _ => true
  | .manualInterventionResolved _ => true
  | .executionOutcome outcome _ => decide (outcome = .failed ∨ outcome = .cancelled)
  | .trial outcome _ => decide (outcome = .invalid ∨ outcome = .failedInfrastructure)
  | .wave status _ => decide (status = .draining ∨ status = .cleaning ∨ status = .closed)
  | _ => false

/-- The record is the expected event, for durable events of the reconciler at whatever time. -/
def sameEventRequest (observed : ControlRecord) (expected : CampaignEvent) : Bool :=
  match observed with
  | .event event =>
    decide (event = expected) ||
      (decide (expected.producer = .reconciler) && expected.body.durable &&
        decide ({ event with observedAt := expected.observedAt } = expected))
  | _ => false

/-! ### The two operations -/

/-- The body of the loop of `_ensure_cancellation_event`. -/
def ensureCancellationEvent (campaignId : String) (event : CampaignEvent)
    (files : Dict String ControlRecord) : Decision String ControlRecord CommitError :=
  let path := eventPath campaignId event.eventId
  let markerPath := campaignCancellationPath campaignId
  match files.get? path, files.get? markerPath with
  | none, none =>
    .write [(path, .event event), (markerPath, .cancellation campaignId event.eventId)]
  | some observed, some observedMarker =>
    if sameEventRequest observed event = false then
      .fail (.conflict ("event conflicts: " ++ event.eventId))
    else if observedMarker ≠ .cancellation campaignId event.eventId then
      .fail (.conflict "campaign cancellation marker conflicts")
    else .done false
  | _, _ => .fail (.control "campaign cancellation state is incomplete")

/-- The kinds of guarded events. -/
def CampaignEvent.guarded (event : CampaignEvent) : Bool :=
  match event.body with
  | .trial outcome _ => decide (outcome = .invalid ∨ outcome = .failedInfrastructure)
  | _ => false

/-- The checks of a guarded batch, event by event. -/
def checkGuarded (campaignId : String) : List CampaignEvent → Except CommitError Unit
  | [] => .ok ()
  | event :: rest => do
    validateEventScope campaignId event
    if event.guarded = false then .error (.value "guarded batches require terminal trial events")
    else checkGuarded campaignId rest

/-- The files of a guarded batch. -/
def guardedEventPayloads (campaignId : String) (events : List CampaignEvent) :
    Except CommitError (List (String × CampaignEvent)) :=
  if events = [] then .error (.value "guarded event commit requires at least one event")
  else do
    checkGuarded campaignId events
    let expected := events.map fun event ↦ (eventPath campaignId event.eventId, event)
    if (expected.map Prod.fst).Nodup then return expected
    else .error (.conflict "guarded events contain duplicate identities")

/-- The files of a batch that are not there; one that is there must be the expected event. -/
def missingEvents (files : Dict String ControlRecord) :
    List (String × CampaignEvent) → Except CommitError (List (String × ControlRecord))
  | [] => .ok []
  | (path, expected) :: rest =>
    match files.get? path with
    | none => do
      let missing ← missingEvents files rest
      return (path, .event expected) :: missing
    | some observed =>
      if sameEventRequest observed expected = false then
        .error (.conflict ("event conflicts: " ++ path))
      else missingEvents files rest

/-- The body of the loop of `ensure_events_unless_cancelled`. -/
def ensureEventsUnlessCancelled (campaignId : String) (events : List CampaignEvent)
    (files : Dict String ControlRecord) : Decision String ControlRecord CommitError :=
  match guardedEventPayloads campaignId events with
  | .error error => .fail error
  | .ok expected =>
    match missingEvents files expected with
    | .error error => .fail error
    | .ok [] => .done false
    | .ok (first :: rest) =>
      if (files.get? (campaignCancellationPath campaignId)).isSome then
        .fail (.cancellationWon "campaign cancellation superseded guarded terminal events")
      else .write (first :: rest)

/-- A request to cancel the campaign, or a guarded batch. -/
inductive GuardedCall
  | cancel (eventId subjectId : String) (observedAt : ℕ) (producer : Producer) (reason : String)
  | guarded (events : List CampaignEvent)

/-- What a call does with the files it reads. -/
def GuardedCall.decide (campaignId : String) (call : GuardedCall)
    (files : Dict String ControlRecord) : Decision String ControlRecord CommitError :=
  match call with
  | .cancel eventId subjectId observedAt producer reason =>
    let event : CampaignEvent := ⟨eventId, subjectId, observedAt, producer, .cancelRequested reason⟩
    match validateEventScope campaignId event with
    | .error error => .fail error
    | .ok () => ensureCancellationEvent campaignId event files
  | .guarded events => ensureEventsUnlessCancelled campaignId events files

/-- Any number of calls over a repository with any files. -/
def campaignWriters {ι : Type} (campaignId : String) (initial : Dict String ControlRecord)
    (calls : ι → GuardedCall) : Writers ι String ControlRecord CommitError where
  initial := initial
  decide writer := (calls writer).decide campaignId
  attempts := 8
  contended := .control "control repository remained contended"
  interrupted := .http

/-! ### What a call writes -/

section Decisions

variable {campaignId : String} {files : Dict String ControlRecord}
  {additions : List (String × ControlRecord)} {events : List CampaignEvent} {error : CommitError}

/-- The missing files of a batch. -/
theorem missingEvents_eq {expected : List (String × CampaignEvent)}
    {missing : List (String × ControlRecord)} (h : missingEvents files expected = .ok missing) :
    missing = (expected.filter fun entry ↦ entry.1 ∉ files.keys).map
      fun entry ↦ (entry.1, .event entry.2) := by
  induction expected generalizing missing with
  | nil =>
    cases h
    rfl
  | cons entry rest ih =>
    obtain ⟨path, event⟩ := entry
    cases hget : files.get? path with
    | none =>
      simp only [missingEvents, hget] at h
      have hmem := Dict.get?_eq_none_iff.mp hget
      cases hrest : missingEvents files rest with
      | error error =>
        rw [hrest] at h
        cases h
      | ok others =>
        rw [hrest] at h
        cases h
        rw [List.filter_cons_of_pos (by simpa using hmem), List.map_cons, ← ih hrest]
    | some observed =>
      simp only [missingEvents, hget] at h
      have hmem : path ∈ files.keys := by
        rw [← Dict.get?_isSome_iff, hget]
        rfl
      split at h
      · cases h
      · rw [List.filter_cons_of_neg (by simpa using hmem)]
        exact ih h

theorem checkGuarded_eq_ok (h : checkGuarded campaignId events = .ok ()) :
    ∀ event ∈ events, event.guarded = true := by
  induction events with
  | nil => simp
  | cons event rest ih =>
    obtain ⟨-, -, h⟩ := bind_eq_ok.mp h
    split_ifs at h with hguarded
    intro other hother
    rcases List.mem_cons.mp hother with rfl | hmem
    · simpa using hguarded
    · exact ih h other hmem

/-- The files of a batch that passed its checks. -/
theorem guardedEventPayloads_eq {expected : List (String × CampaignEvent)}
    (h : guardedEventPayloads campaignId events = .ok expected) :
    expected = events.map (fun event ↦ (eventPath campaignId event.eventId, event)) ∧
      (expected.map Prod.fst).Nodup ∧ ∀ event ∈ events, event.guarded = true := by
  unfold guardedEventPayloads at h
  split_ifs at h
  obtain ⟨_, hchecks, h⟩ := bind_eq_ok.mp h
  dsimp only at h
  split at h
  · rename_i hnodup
    cases h
    exact ⟨rfl, hnodup, checkGuarded_eq_ok hchecks⟩
  · cases h

/-- The error says that a cancellation won. -/
def CommitError.won : CommitError → Bool
  | cancellationWon _ => true
  | _ => false

theorem won_validateEventScope {event : CampaignEvent}
    (h : validateEventScope campaignId event = .error error) : error.won = false := by
  unfold validateEventScope at h
  split_ifs at h <;> cases h <;> rfl

theorem bind_eq_error {β γ : Type} {action : Except CommitError β}
    {next : β → Except CommitError γ} (h : action >>= next = .error error) :
    action = .error error ∨ ∃ value, next value = .error error := by
  cases action with
  | error other =>
    cases h
    exact .inl rfl
  | ok value => exact .inr ⟨value, h⟩

theorem won_checkGuarded
    (h : checkGuarded campaignId events = .error error) : error.won = false := by
  induction events with
  | nil => cases h
  | cons event rest ih =>
    rcases bind_eq_error h with hscope | ⟨-, hrest⟩
    · exact won_validateEventScope hscope
    · split_ifs at hrest
      · cases hrest
        rfl
      · exact ih hrest

theorem won_guardedEventPayloads
    (h : guardedEventPayloads campaignId events = .error error) : error.won = false := by
  unfold guardedEventPayloads at h
  split_ifs at h
  · cases h
    rfl
  · rcases bind_eq_error h with hchecks | ⟨-, hexpected⟩
    · exact won_checkGuarded hchecks
    · dsimp only at hexpected
      split at hexpected
      · cases hexpected
      · cases hexpected
        rfl

theorem won_missingEvents {expected : List (String × CampaignEvent)}
    (h : missingEvents files expected = .error error) : error.won = false := by
  induction expected with
  | nil => cases h
  | cons entry rest ih =>
    obtain ⟨path, event⟩ := entry
    unfold missingEvents at h
    split at h
    · rcases bind_eq_error h with hrest | ⟨value, hvalue⟩
      · exact ih hrest
      · cases hvalue
    · split_ifs at h
      · cases h
        rfl
      · exact ih h

/-- A call that cancels writes its event and the marker, where neither is there. -/
theorem decide_cancel {eventId subjectId reason : String} {observedAt : ℕ} {producer : Producer}
    (h : (GuardedCall.cancel eventId subjectId observedAt producer reason).decide campaignId files =
      .write additions) : additions =
        [(eventPath campaignId eventId,
            .event ⟨eventId, subjectId, observedAt, producer, .cancelRequested reason⟩),
          (campaignCancellationPath campaignId, .cancellation campaignId eventId)] ∧
      eventPath campaignId eventId ∉ files.keys ∧
      campaignCancellationPath campaignId ∉ files.keys := by
  simp only [GuardedCall.decide] at h
  split at h
  · cases h
  · unfold ensureCancellationEvent at h
    dsimp only at h
    split at h
    · rename_i hevent hmarker
      cases h
      exact ⟨rfl, Dict.get?_eq_none_iff.mp hevent, Dict.get?_eq_none_iff.mp hmarker⟩
    · split_ifs at h
    · cases h

/-- A guarded batch writes all that is missing of it, where the marker is not there. -/
theorem decide_guarded
    (h : (GuardedCall.guarded events).decide campaignId files = .write additions) :
    additions = ((events.map fun event ↦ (eventPath campaignId event.eventId, event)).filter
        fun entry ↦ entry.1 ∉ files.keys).map (fun entry ↦ (entry.1, .event entry.2)) ∧
      (additions.map Prod.fst).Nodup ∧ campaignCancellationPath campaignId ∉ files.keys ∧
      ∀ event ∈ events, event.guarded = true := by
  simp only [GuardedCall.decide, ensureEventsUnlessCancelled] at h
  split at h
  · cases h
  · rename_i expected hexpected
    obtain ⟨rfl, hnodup, hguarded⟩ := guardedEventPayloads_eq hexpected
    split at h
    · cases h
    · cases h
    · rename_i first rest hmissing
      split_ifs at h with hmarker
      cases h
      have hadditions := missingEvents_eq hmissing
      refine ⟨hadditions, ?_, ?_, hguarded⟩
      · rw [hadditions, List.map_map]
        refine hnodup.sublist ?_
        exact List.filter_sublist.map Prod.fst
      · rw [← Dict.get?_eq_none_iff]
        simpa using hmarker

/-- A guarded batch is given up for a cancellation when the marker is there and some of its events
are not. -/
theorem decide_won {call : GuardedCall} (hwon : error.won = true)
    (h : call.decide campaignId files = .fail error) :
    campaignCancellationPath campaignId ∈ files.keys ∧ ∃ events, call = .guarded events ∧
      ∃ event ∈ events, eventPath campaignId event.eventId ∉ files.keys := by
  have hnot {other : CommitError} (hother : other.won = false) (heq : other = error) : False := by
    rw [heq, hwon] at hother
    cases hother
  cases call with
  | cancel eventId subjectId observedAt producer reason =>
    exfalso
    simp only [GuardedCall.decide] at h
    split at h
    · rename_i scope hscope
      exact hnot (won_validateEventScope hscope) (Decision.fail.inj h)
    · unfold ensureCancellationEvent at h
      dsimp only at h
      split at h
      · cases h
      · split_ifs at h
        · exact hnot rfl (Decision.fail.inj h)
        · exact hnot rfl (Decision.fail.inj h)
      · exact hnot rfl (Decision.fail.inj h)
  | guarded events =>
    simp only [GuardedCall.decide, ensureEventsUnlessCancelled] at h
    split at h
    · rename_i payloads hpayloads
      exact (hnot (won_guardedEventPayloads hpayloads) (Decision.fail.inj h)).elim
    · rename_i expected hexpected
      obtain ⟨rfl, -, -⟩ := guardedEventPayloads_eq hexpected
      split at h
      · rename_i conflict hconflict
        exact (hnot (won_missingEvents hconflict) (Decision.fail.inj h)).elim
      · cases h
      · rename_i first rest hmissing
        split_ifs at h with hmarker
        have hfirst : first ∈ first :: rest := List.mem_cons_self
        rw [missingEvents_eq hmissing] at hfirst
        obtain ⟨entry, hentry, rfl⟩ := List.mem_map.mp hfirst
        obtain ⟨hentry, habsent⟩ := List.mem_filter.mp hentry
        obtain ⟨event, hevent, rfl⟩ := List.mem_map.mp hentry
        exact ⟨Dict.get?_isSome_iff.mp hmarker, events, rfl, event, hevent, by simpa using habsent⟩

end Decisions

/-! ### Every interleaving -/

section Interleavings

variable {ι : Type} {campaignId : String} {initial : Dict String ControlRecord}
  {calls : ι → GuardedCall} {files : Dict String ControlRecord}
  {additions : List (String × ControlRecord)}

/-- A call writes only where the marker is not, and only files that are not there. -/
theorem decide_write {call : GuardedCall} (h : call.decide campaignId files = .write additions) :
    campaignCancellationPath campaignId ∉ files.keys ∧ (additions.map Prod.fst).Nodup ∧
      ∀ path ∈ additions.map Prod.fst, path ∉ files.keys := by
  cases call with
  | cancel eventId subjectId observedAt producer reason =>
    obtain ⟨rfl, hevent, hmarker⟩ := decide_cancel h
    refine ⟨hmarker, ?_, ?_⟩
    · simpa using eventPath_ne_campaignCancellationPath campaignId eventId
    · simp only [List.map_cons, List.map_nil, List.mem_cons, List.not_mem_nil, or_false]
      rintro path (rfl | rfl)
      · exact hevent
      · exact hmarker
  | guarded events =>
    obtain ⟨hadditions, hnodup, hmarker, -⟩ := decide_guarded h
    refine ⟨hmarker, hnodup, ?_⟩
    intro path hpath
    rw [hadditions, List.map_map] at hpath
    obtain ⟨entry, hentry, rfl⟩ := List.mem_map.mp hpath
    simpa using (List.mem_filter.mp hentry).2

theorem get?_addFiles_of_notMem {path : String} (h : path ∉ additions.map Prod.fst) :
    (addFiles files additions).get? path = files.get? path := by
  induction additions generalizing files with
  | nil => rfl
  | cons entry rest ih =>
    rw [List.map_cons, List.mem_cons, not_or] at h
    exact (ih h.2).trans (Dict.get?_set_of_ne h.1)

/-- The commits of requests to cancel and of guarded batches. -/
structure Linearized (campaignId : String) (initial : Dict String ControlRecord)
    (calls : ι → GuardedCall) (system : System ι String ControlRecord CommitError) : Prop where
  /-- Nothing is committed after the cancellation. -/
  last : ∀ before cancellation after, system.commits = before ++ cancellation :: after →
    campaignCancellationPath campaignId ∈ cancellation.additions.map Prod.fst → after = []
  /-- A batch commits at most once. -/
  once : (system.commits.map Commit.author).Nodup
  /-- A commit of a batch adds all of its events that are not there yet. -/
  whole : ∀ before commit after events, system.commits = before ++ commit :: after →
    calls commit.author = .guarded events →
      commit.additions = ((events.map fun event ↦ (eventPath campaignId event.eventId, event)).filter
        fun entry ↦ entry.1 ∉ (filesAfter initial before).keys).map
          fun entry ↦ (entry.1, .event entry.2)
  /-- The event and the marker of a cancellation are added by one commit, and by no other. -/
  together : ∀ commit ∈ system.commits,
    (∃ event reason, event.body = .cancelRequested reason ∧
      commit.additions = [(eventPath campaignId event.eventId, .event event),
        (campaignCancellationPath campaignId, .cancellation campaignId event.eventId)]) ∨
    (campaignCancellationPath campaignId ∉ commit.additions.map Prod.fst ∧
      ∀ path event reason, (path, .event event) ∈ commit.additions →
        event.body ≠ .cancelRequested reason)
  /-- A call loses to a cancellation that is there, and some of its events are not. -/
  won : ∀ writer error, system.phase writer = .finished (.error error) → error.won = true →
    campaignCancellationPath campaignId ∈ (filesAfter initial system.commits).keys ∧
      ∃ events, calls writer = .guarded events ∧ ∃ event ∈ events,
        eventPath campaignId event.eventId ∉ (filesAfter initial system.commits).keys
  /-- What is there stays. -/
  kept : ∀ before after path record, system.commits = before ++ after →
    (filesAfter initial before).get? path = some record →
      (filesAfter initial system.commits).get? path = some record

variable [DecidableEq ι] {system : System ι String ControlRecord CommitError}

omit [DecidableEq ι] in
theorem frozen (h : (campaignWriters campaignId initial calls).Sound system)
    {before after : List (Commit ι String ControlRecord)} (heq : system.commits = before ++ after)
    (hmarker : campaignCancellationPath campaignId ∈ (filesAfter initial before).keys) :
    after = [] := by
  cases after with
  | nil => rfl
  | cons commit rest => exact absurd hmarker (decide_write (h.committed before commit rest heq)).1

omit [DecidableEq ι] in
theorem kept_of_sound (h : (campaignWriters campaignId initial calls).Sound system)
    {before after : List (Commit ι String ControlRecord)} {path : String} {record : ControlRecord}
    (heq : system.commits = before ++ after)
    (hrecord : (filesAfter initial before).get? path = some record) :
    (filesAfter initial system.commits).get? path = some record := by
  induction after generalizing before with
  | nil =>
    rw [heq, List.append_nil]
    exact hrecord
  | cons commit rest ih =>
    have hsplit : system.commits = (before ++ [commit]) ++ rest := by
      rw [heq]
      simp
    refine ih hsplit ?_
    have hpath : path ∉ commit.additions.map Prod.fst := by
      intro hmem
      have habsent : path ∉ (filesAfter initial before).keys :=
        (decide_write (h.committed before commit rest heq)).2.2 path hmem
      rw [← Dict.get?_eq_none_iff, hrecord] at habsent
      cases habsent
    rw [filesAfter_append, get?_addFiles_of_notMem hpath]
    exact hrecord

/-- Requests to cancel and guarded batches are linearized in every interleaving. -/
theorem linearized (h : (campaignWriters campaignId initial calls).Reachable system) :
    Linearized campaignId initial calls system := by
  have hsound := h.sound
  refine ⟨?_, hsound.once, ?_, ?_, ?_, fun before after path record ↦ kept_of_sound hsound⟩
  · intro before cancellation after heq hmarker
    have hsplit : system.commits = (before ++ [cancellation]) ++ after := by
      rw [heq]
      simp
    refine frozen hsound hsplit ?_
    rw [filesAfter_append, mem_keys_addFiles]
    exact .inr hmarker
  · intro before commit after events heq hcall
    have hdecide := hsound.committed before commit after heq
    simp only [campaignWriters, hcall] at hdecide
    exact (decide_guarded hdecide).1
  · intro commit hcommit
    obtain ⟨before, after, heq⟩ := List.append_of_mem hcommit
    have hdecide := hsound.committed before commit after heq
    cases hcall : calls commit.author with
    | cancel eventId subjectId observedAt producer reason =>
      simp only [campaignWriters, hcall] at hdecide
      exact .inl ⟨⟨eventId, subjectId, observedAt, producer, .cancelRequested reason⟩, reason, rfl,
        (decide_cancel hdecide).1⟩
    | guarded events =>
      simp only [campaignWriters, hcall] at hdecide
      obtain ⟨hadditions, -, -, hguarded⟩ := decide_guarded hdecide
      refine .inr ⟨?_, ?_⟩
      · intro hmem
        rw [hadditions, List.map_map] at hmem
        obtain ⟨entry, hentry, hpath⟩ := List.mem_map.mp hmem
        obtain ⟨event, hevent, rfl⟩ := List.mem_map.mp (List.mem_filter.mp hentry).1
        exact eventPath_ne_campaignCancellationPath campaignId event.eventId hpath
      · intro path event reason hmem hbody
        rw [hadditions] at hmem
        obtain ⟨entry, hentry, hsame⟩ := List.mem_map.mp hmem
        obtain ⟨other, hother, rfl⟩ := List.mem_map.mp (List.mem_filter.mp hentry).1
        cases hsame
        have hkind := hguarded other hother
        dsimp only at hbody
        simp [CampaignEvent.guarded, hbody] at hkind
  · intro writer error hphase hwon
    rcases hsound.failed writer error hphase with rfl | rfl | ⟨before, after, heq, hfail⟩
    · cases hwon
    · cases hwon
    · obtain ⟨hmarker, hlost⟩ := decide_won hwon hfail
      obtain rfl := frozen hsound heq hmarker
      rw [heq, List.append_nil]
      exact ⟨hmarker, hlost⟩

end Interleavings

/-! ### A batch that loses to a cancellation -/

section Sample

/-- A request to cancel the campaign and a batch of one event. -/
def racingCalls : Bool → GuardedCall
  | false => .cancel "cancel" "campaign" 3 .cli "stop"
  | true => .guarded [⟨"exhausted", "trial", 4, .reconciler, .trial .failedInfrastructure ⟨none, none⟩⟩]

/-- The request to cancel commits while the batch is about to; the batch reads again and loses. -/
theorem racingCalls_linearized : ∃ system,
    (campaignWriters "campaign" [] racingCalls).Reachable system ∧
      Linearized "campaign" [] racingCalls system ∧ system.commits.length = 1 ∧
      system.phase true = .finished (.error
        (.cancellationWon "campaign cancellation superseded guarded terminal events")) := by
  have hstart : (campaignWriters "campaign" [] racingCalls).Reachable ⟨[], fun _ ↦ .idle 8⟩ :=
    ⟨_, ⟨rfl, fun _ ↦ rfl⟩, .refl⟩
  have hbatch := hstart.step (.look _ true 7 rfl)
  have hcancel := hbatch.step (.look _ false 7 rfl)
  have hcommit := hcancel.step (.commit _ false 7 _ (.ok true) (.inl rfl) rfl)
  have hconflict := hcommit.step (.conflict _ true 7 0 _ rfl)
  have hlost := hconflict.step (.look _ true 6 rfl)
  exact ⟨_, hlost, linearized hlost, rfl, rfl⟩

end Sample

end HarborHF.Campaign
