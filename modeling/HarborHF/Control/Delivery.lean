import HarborHF.Control.Events
import HarborHF.Control.Runs

/-!
# What the event stream delivers

A client that received an event, lost its connection and reconnects with the id of that event is
sent the rows with larger cursors and everything that is appended from then on. The creation times
that the service gives its records do not grow in the order of the appends: a receipt's advancement
has the time of the receipt, a retry has the time of the attempt before it. So a record that was
appended while the client was away and whose cursor is below the client's is never sent.

`Serving` is what holds on a connection from the moment it is made: every row of that moment that
lies behind the cursor of the request was sent, is on the page that was answered, or lies behind the
replay's cursor, and every record appended since is buffered or was sent. `delivers_iff` says when a
reconnected client misses nothing.
-/

set_option autoImplicit false

namespace HarborHF.Control

open Relational Projection

/-! ### Sending -/

namespace Connection

variable {connection : Connection} {event : ControlEvent} {events : List ControlEvent}
  {id : EventCursor}

theorem mem_seen_sendUnseen :
    id ∈ (connection.sendUnseen event).seen ↔ id = event.id ∨ id ∈ connection.seen := by
  unfold sendUnseen
  split_ifs with hseen
  · exact ⟨.inr, fun h ↦ h.elim (fun heq ↦ heq ▸ hseen) fun hmem ↦ hmem⟩
  · exact List.mem_cons

theorem mem_seen_foldl_send : id ∈ (events.foldl send connection).seen ↔
      id ∈ events.map ControlEvent.id ∨ id ∈ connection.seen := by
  induction events generalizing connection with
  | nil => simp
  | cons event rest ih =>
    rw [List.foldl_cons, ih]
    simp only [send, List.mem_cons, List.map_cons]
    exact ⟨fun h ↦ by tauto, fun h ↦ by tauto⟩

theorem mem_seen_foldl_sendUnseen : id ∈ (events.foldl sendUnseen connection).seen ↔
      id ∈ events.map ControlEvent.id ∨ id ∈ connection.seen := by
  induction events generalizing connection with
  | nil => simp
  | cons event rest ih =>
    rw [List.foldl_cons, ih, mem_seen_sendUnseen, List.map_cons, List.mem_cons]
    exact ⟨fun h ↦ by tauto, fun h ↦ by tauto⟩

theorem foldl_send_buffered : (events.foldl send connection).buffered = connection.buffered := by
  induction events generalizing connection with
  | nil => rfl
  | cons event rest ih => exact ih

/-- What is on the wire and in the buffer satisfies `P`, and what counts as seen was received or is
on the wire. -/
structure Honest (P : ControlEvent → Prop) (received : List ControlEvent)
    (connection : Connection) : Prop where
  wire : ∀ event ∈ connection.wire, P event
  buffered : ∀ event ∈ connection.buffered, P event
  seen : ∀ id ∈ connection.seen, id ∈ (received ++ connection.wire).map ControlEvent.id

variable {P : ControlEvent → Prop} {received : List ControlEvent}

theorem Honest.send (h : connection.Honest P received) (hevent : P event) :
    (connection.send event).Honest P received := by
  refine ⟨?_, h.buffered, ?_⟩
  · intro other hother
    rcases List.mem_append.mp hother with hold | hnew
    · exact h.wire other hold
    · rwa [List.mem_singleton.mp hnew]
  · intro id hid
    simp only [Connection.send, ← List.append_assoc, List.map_append, List.mem_append]
    rcases List.mem_cons.mp hid with rfl | hold
    · exact .inr (List.mem_map_of_mem List.mem_cons_self)
    · exact .inl (by simpa using h.seen id hold)

theorem Honest.sendUnseen (h : connection.Honest P received) (hevent : P event) :
    (connection.sendUnseen event).Honest P received := by
  unfold Connection.sendUnseen
  split_ifs with hseen
  · exact h
  · exact h.send hevent

theorem Honest.foldl_send (h : connection.Honest P received) (hevents : ∀ event ∈ events, P event) :
    (events.foldl Connection.send connection).Honest P received := by
  induction events generalizing connection with
  | nil => exact h
  | cons event rest ih =>
    exact ih (h.send (hevents event List.mem_cons_self))
      fun other hother ↦ hevents other (List.mem_cons_of_mem event hother)

theorem Honest.foldl_sendUnseen (h : connection.Honest P received)
    (hevents : ∀ event ∈ events, P event) :
    (events.foldl Connection.sendUnseen connection).Honest P received := by
  induction events generalizing connection with
  | nil => exact h
  | cons event rest ih =>
    exact ih (h.sendUnseen (hevents event List.mem_cons_self))
      fun other hother ↦ hevents other (List.mem_cons_of_mem event hother)

theorem Honest.flush (h : connection.Honest P received) : connection.flush.Honest P received := by
  have hsent := h.foldl_sendUnseen h.buffered
  exact ⟨hsent.wire, fun event hevent ↦ absurd hevent List.not_mem_nil, hsent.seen⟩

theorem Honest.sendPage (h : connection.Honest P received) (hevents : ∀ event ∈ events, P event)
    (replayCursor : EventCursor) : (connection.sendPage replayCursor events).Honest P received := by
  have hsent := h.foldl_send hevents
  unfold Connection.sendPage
  by_cases hshort : events.length < pageSize
  · simp only [if_pos hshort]
    exact hsent.flush
  · simp only [if_neg hshort]
    exact ⟨hsent.wire, hsent.buffered, hsent.seen⟩

theorem Honest.publish (h : connection.Honest P received) (hevent : P event) :
    (connection.publish event).Honest P received := by
  unfold Connection.publish
  split
  · refine ⟨h.wire, ?_, h.seen⟩
    intro other hother
    rcases List.mem_append.mp hother with hold | hnew
    · exact h.buffered other hold
    · rwa [List.mem_singleton.mp hnew]
  · exact h.sendUnseen hevent

/-- A record that was appended on this connection is buffered or was sent. -/
def Caught (connection : Connection) (record : Record) : Prop :=
  match connection.phase with
  | .replaying _ _ => record.event ∈ connection.buffered
  | .live => record.cursor ∈ connection.seen

theorem caught_publish (connection : Connection) (record : Record) :
    (connection.publish record.event).Caught record := by
  unfold publish Caught
  rcases hphase : connection.phase with ⟨cursor, page⟩ | _
  · simp
  · have hkept : (connection.sendUnseen record.event).phase = .live := by
      unfold sendUnseen send
      split_ifs with hseen <;> exact hphase
    simp only [hkept]
    exact mem_seen_sendUnseen.mpr (.inl rfl)

theorem Caught.publish {record : Record} (h : connection.Caught record) :
    (connection.publish event).Caught record := by
  unfold Connection.publish Caught at *
  rcases hphase : connection.phase with ⟨cursor, page⟩ | _
  · simp only [hphase] at h ⊢
    exact List.mem_append_left _ h
  · simp only [hphase] at h
    have hkept : (connection.sendUnseen event).phase = .live := by
      unfold sendUnseen send
      split_ifs with hseen <;> exact hphase
    simp only [hkept]
    exact mem_seen_sendUnseen.mpr (.inr h)

end Connection

/-! ### The pages of the replay -/

theorem EventCursor.precedes_iff {cursor : EventCursor} {row : Record} :
    cursor.Precedes row ↔ cursor < row.cursor := by
  rw [EventCursor.lt_iff]
  exact or_congr Iff.rfl (and_congr eq_comm Iff.rfl)

theorem chronological_iff {first second : Record} :
    Chronological Record.createdAt (fun row ↦ row.key.path) first second ↔
      first.cursor ≤ second.cursor := by
  rw [EventCursor.le_iff]
  rfl

theorem mem_audit {P : Projection} {cursor : EventCursor} {limit : ℕ} {event : ControlEvent}
    (h : event ∈ P.audit (some cursor) limit) :
    ∃ row ∈ P.objects, event = row.event ∧ cursor < row.cursor := by
  obtain ⟨row, hrow, rfl⟩ := List.mem_map.mp h
  have hfilter := (List.mem_insertionSort _).mp (List.mem_of_mem_take hrow)
  obtain ⟨hmem, hprecedes⟩ := List.mem_filter.mp hfilter
  exact ⟨row, hmem, rfl, EventCursor.precedes_iff.mp (of_decide_eq_true hprecedes)⟩

/-- A row behind the cursor is on the page, or the page is full and ends before it. -/
theorem audit_complete {P : Projection} {cursor : EventCursor} {row : Record}
    (hrow : row ∈ P.objects) (hcursor : cursor < row.cursor) (limit : ℕ) :
    row.event ∈ P.audit (some cursor) limit ∨
      ((P.audit (some cursor) limit).length = limit ∧
        ∀ event ∈ P.audit (some cursor) limit, event.id ≤ row.cursor) := by
  have hfilter : row ∈ P.objects.filter fun row ↦
      (some cursor).all fun cursor ↦ decide (cursor.Precedes row) :=
    List.mem_filter.mpr ⟨hrow, decide_eq_true (EventCursor.precedes_iff.mpr hcursor)⟩
  have hpage : row ∈ ((P.objects.filter fun row ↦
      (some cursor).all fun cursor ↦ decide (cursor.Precedes row)).insertionSort
        (Chronological Record.createdAt fun row ↦ row.key.path)).take limit ∨ _ :=
    mem_page_or_full hfilter limit
  rcases hpage with hpage | ⟨hfull, hbefore⟩
  · exact .inl (List.mem_map_of_mem hpage)
  · right
    refine ⟨(List.length_map _).trans hfull, ?_⟩
    intro event hevent
    obtain ⟨other, hother, rfl⟩ := List.mem_map.mp hevent
    exact chronological_iff.mp (hbefore other hother)

/-! ### The order of the appends -/

namespace Stream

/-- One record comes after another in a list. -/
def After (records : List Record) (first second : Record) : Prop :=
  ∃ earlier later, records = earlier ++ first :: later ∧ second ∈ later

theorem After.extend {records records' : List Record} {first second : Record}
    (h : After records first second) (hgrown : records <+: records') :
    After records' first second := by
  obtain ⟨earlier, later, rfl, hmem⟩ := h
  obtain ⟨rest, rfl⟩ := hgrown
  exact ⟨earlier, later ++ rest, by simp, List.mem_append_left rest hmem⟩

/-- What comes before a record of a prefix is in that prefix. -/
theorem After.restrict {records records' : List Record} {first second : Record}
    (h : After records' first second) (hgrown : records <+: records') (hnodup : records'.Nodup)
    (hsecond : second ∈ records) : After records first second := by
  obtain ⟨earlier, later, heq, hmem⟩ := h
  obtain ⟨rest, rfl⟩ := hgrown
  rcases List.append_eq_append_iff.mp heq with
    ⟨middle, hearlier, hrest⟩ | ⟨middle, hrecords, hlater⟩
  · -- the second record would occur on both sides of the cut
    exfalso
    have hlast : second ∈ rest := by
      rw [hrest]
      exact List.mem_append_right middle (List.mem_cons_of_mem first hmem)
    exact (List.nodup_append.mp hnodup).2.2 second hsecond second hlast rfl
  · cases middle with
    | nil =>
      exfalso
      have hlast : second ∈ rest := by
        rw [← List.nil_append rest, ← hlater]
        exact List.mem_cons_of_mem first hmem
      exact (List.nodup_append.mp hnodup).2.2 second hsecond second hlast rfl
    | cons head tail =>
      obtain ⟨rfl, rfl⟩ := List.cons.inj hlater
      refine ⟨earlier, tail, hrecords, ?_⟩
      rcases List.mem_append.mp hmem with htail | hrest
      · exact htail
      · exact absurd rfl ((List.nodup_append.mp hnodup).2.2 second hsecond second hrest)

/-- A record whose append succeeded after another record was stored. -/
def AppendedAfter (stream : Stream) (first record : Record) : Prop :=
  record ∈ stream.appended ∧ After stream.world.store.records first record

/-- The projection holds what the store holds, all identifiers passed the schema, and what was
appended is stored. -/
structure Sound (stream : Stream) : Prop where
  synced : stream.world.Synced
  plain : ∀ record ∈ stream.world.store.records, record.key.Plain
  appended : ∀ record ∈ stream.appended, record ∈ stream.world.store.records

variable [Digests] {stream stream' : Stream} {record : Record}

/-- An append that publishes adds its record to the store; another one may add it too. -/
theorem append_cases (hsynced : stream.world.Synced) (record : Record) :
    stream.append record = stream ∨
      (record.key.Plain ∧ Free Record.key record.key stream.world.store.records ∧
        (stream.append record =
            { stream with
              world := stream.world.afterAppend record
              appended := stream.appended ++ [record]
              connection := stream.connection.map fun connection ↦
                connection.publish record.event } ∨
          stream.append record = { stream with world := stream.world.afterAppend record })) := by
  by_cases hplain : record.key.Plain
  · rcases hresult : stream.world.append record with ⟨answer, world⟩
    by_cases hpublishes : publishes stream.world record = true
    · have hpublished := Bool.and_eq_true_iff.mp hpublishes
      simp only [append, if_pos hplain, if_pos hpublishes, hresult]
      cases World.append_spec hsynced hresult with
      | invalid | unverified | conflict | refused | poisoned =>
        simp [hresult, Except.toBool] at hpublished
      | present _ hmem =>
        have hobject := hsynced.objectAt record.key
        have hread : stream.world.store.readRecord record.key = some record :=
          hsynced.keyed.lookup_eq_some.mpr ⟨hmem, rfl⟩
        simp [hobject, hread] at hpublished
      | accepted _ _ hfresh => exact .inr ⟨hplain, hfresh, .inl rfl⟩
    · simp only [append, if_pos hplain, if_neg hpublishes, hresult]
      rcases World.append_world hsynced hresult with rfl | ⟨hfresh, rfl⟩
      · exact .inl rfl
      · exact .inr ⟨hplain, hfresh, .inr rfl⟩
  · exact .inl (if_neg hplain)

theorem Sound.afterAppend (h : stream.Sound) {appended : List Record}
    {connection : Option Connection} (hplain : record.key.Plain)
    (hfresh : Free Record.key record.key stream.world.store.records)
    (happended : ∀ other ∈ appended, other ∈ stream.appended ∨ other = record) : Sound { stream with
      world := stream.world.afterAppend record
      appended := appended
      connection := connection } := by
  refine ⟨h.synced.afterAppend hfresh, ?_, ?_⟩
  · intro other hother
    rcases List.mem_append.mp hother with hold | hnew
    · exact h.plain other hold
    · rwa [List.mem_singleton.mp hnew]
  · intro other hother
    rcases happended other hother with hold | rfl
    · exact List.mem_append_left [record] (h.appended other hold)
    · exact List.mem_append_right stream.world.store.records List.mem_cons_self

theorem Sound.append (h : stream.Sound) (record : Record) : (stream.append record).Sound := by
  rcases append_cases h.synced record with heq | ⟨hplain, hfresh, heq | heq⟩
  · rwa [heq]
  · rw [heq]
    refine h.afterAppend hplain hfresh fun other hother ↦ ?_
    exact (List.mem_append.mp hother).imp id List.mem_singleton.mp
  · rw [heq]
    exact h.afterAppend hplain hfresh fun other hother ↦ .inl hother

theorem sync_store (hsynced : stream.world.Synced) :
    stream.world.syncProjection.2.store = stream.world.store ∧
      stream.world.syncProjection.2.projection.objects = stream.world.projection.objects := by
  rw [hsynced.syncProjection]
  exact ⟨rfl, rfl⟩

theorem Sound.sync (h : stream.Sound) :
    Sound { stream with world := stream.world.syncProjection.2 } := by
  obtain ⟨hstore, hobjects⟩ := sync_store h.synced
  refine ⟨⟨?_, ?_⟩, ?_, ?_⟩
  · rw [hstore]
    exact h.synced.keyed
  · rw [hstore, hobjects]
    exact h.synced.objects
  · rw [hstore]
    exact h.plain
  · rw [hstore]
    exact h.appended

/-- A step keeps the stream sound. -/
theorem Sound.step (h : stream.Sound) {action : StreamAction}
    (hstep : stream.step action = some stream') : stream'.Sound := by
  cases action with
  | append record =>
    cases hstep
    exact h.append record
  | syncProjection =>
    cases hstep
    exact h.sync
  | restart =>
    obtain ⟨world, hrestart, rfl⟩ := Option.map_eq_some_iff.mp hstep
    have hsynced := World.synced_of_restart hrestart
    obtain ⟨-, -, -, rfl⟩ := World.restart_eq_some.mp hrestart
    exact ⟨hsynced, h.plain, h.appended⟩
  | connect | query | page | receive =>
    simp only [Stream.step] at hstep
    split at hstep
    · cases hstep
      exact ⟨h.synced, h.plain, h.appended⟩
    · cases hstep
  | disconnect =>
    obtain ⟨connection, -, rfl⟩ := Option.map_eq_some_iff.mp hstep
    exact ⟨h.synced, h.plain, h.appended⟩

theorem Sound.run (h : stream.Sound) {actions : List StreamAction}
    (hrun : stream.run actions = some stream') : stream'.Sound := by
  induction actions generalizing stream with
  | nil =>
    cases hrun
    exact h
  | cons action rest ih =>
    obtain ⟨next, hstep, hrest⟩ := Option.bind_eq_some_iff.mp hrun
    exact ih (h.step hstep) hrest

/-! ### A connection from its start on -/

/-- An event of a row behind the cursor of the request, or of a record appended since. -/
def Later (origin : Stream) (cursor : EventCursor) (event : ControlEvent) : Prop :=
  ∃ row : Record, event = row.event ∧ row.key.Plain ∧
    (cursor < row.cursor ∨ Free Record.key row.key origin.world.store.records)

/-- The replay has sent every row up to its cursor, and the page that was answered continues from
there. -/
def Replayed (origin : Stream) (cursor : EventCursor) (connection : Connection) : Prop :=
  match connection.phase with
  | .live => ∀ row ∈ origin.world.store.records, cursor < row.cursor → row.cursor ∈ connection.seen
  | .replaying replayCursor page =>
    cursor ≤ replayCursor ∧
      (∀ row ∈ origin.world.store.records, cursor < row.cursor → row.cursor ≤ replayCursor →
        row.cursor ∈ connection.seen) ∧
      ∀ events ∈ page, (∀ event ∈ events, Later origin cursor event ∧ cursor < event.id) ∧
        ∀ row ∈ origin.world.store.records, replayCursor < row.cursor →
          row.event ∈ events ∨
            (Connection.pageSize ≤ events.length ∧ ∀ event ∈ events, event.id ≤ row.cursor)

/-- What holds on a connection that was made in `origin` with a cursor. -/
structure Serving (origin : Stream) (cursor : EventCursor) (stream : Stream)
    (connection : Connection) : Prop where
  sound : stream.Sound
  connected : stream.connection = some connection
  grown : origin.world.store.records <+: stream.world.store.records
  appended : ∀ record ∈ origin.appended, record ∈ stream.appended
  kept : ∀ event ∈ origin.received, event ∈ stream.received
  received : ∀ event ∈ stream.received, event ∈ origin.received ∨ Later origin cursor event
  honest : connection.Honest (Later origin cursor) stream.received
  caught : ∀ record ∈ stream.appended, record ∈ origin.appended ∨ connection.Caught record
  replayed : Replayed origin cursor connection

variable {origin : Stream} {cursor : EventCursor} {connection : Connection}
  {replayCursor : EventCursor}

omit [Digests] in
theorem Serving.start (h : origin.Sound) :
    Serving origin cursor { origin with connection := some (Connection.start (some cursor)) }
      (Connection.start (some cursor)) where
  sound := ⟨h.synced, h.plain, h.appended⟩
  connected := rfl
  grown := List.prefix_refl _
  appended := fun _ hrecord ↦ hrecord
  kept := fun _ hevent ↦ hevent
  received := fun _ hevent ↦ .inl hevent
  honest := ⟨by simp [Connection.start], by simp [Connection.start], by simp [Connection.start]⟩
  caught := fun _ hrecord ↦ .inl hrecord
  replayed := by
    refine ⟨le_refl cursor, ?_, ?_⟩
    · intro row _ hlt hle
      exact absurd hlt hle.not_gt
    · intro events hevents
      cases hevents

omit [Digests] in
theorem replayed_publish {event : ControlEvent} (h : Replayed origin cursor connection) :
    Replayed origin cursor (connection.publish event) := by
  unfold Connection.publish Replayed at *
  rcases hphase : connection.phase with ⟨replayCursor, page⟩ | _
  · simp only [hphase] at h ⊢
    exact h
  · simp only [hphase] at h ⊢
    have hkept : (connection.sendUnseen event).phase = .live := by
      unfold Connection.sendUnseen Connection.send
      split_ifs with hseen <;> exact hphase
    simp only [hkept]
    exact fun row hrow hlt ↦ Connection.mem_seen_sendUnseen.mpr (.inr (h row hrow hlt))

theorem Serving.append (h : Serving origin cursor stream connection) (record : Record) :
    ∃ connection', Serving origin cursor (stream.append record) connection' := by
  have hsound := h.sound.append record
  rcases append_cases h.sound.synced record with heq | ⟨hplain, hfresh, heq | heq⟩
  · exact ⟨connection, by rwa [heq]⟩
  · have hlater : Later origin cursor record.event :=
      ⟨record, rfl, hplain, .inr fun row hrow ↦ hfresh row (h.grown.subset hrow)⟩
    refine ⟨connection.publish record.event, ?_⟩
    rw [heq] at hsound ⊢
    exact {
      sound := hsound
      connected := by rw [h.connected]; rfl
      grown := h.grown.trans (List.prefix_append _ [record])
      appended := fun other hother ↦ List.mem_append_left [record] (h.appended other hother)
      kept := h.kept
      received := h.received
      honest := h.honest.publish hlater
      caught := by
        intro other hother
        rcases List.mem_append.mp hother with hold | hnew
        · exact (h.caught other hold).imp id Connection.Caught.publish
        · rw [List.mem_singleton.mp hnew]
          exact .inr (connection.caught_publish record)
      replayed := replayed_publish h.replayed }
  · refine ⟨connection, ?_⟩
    rw [heq] at hsound ⊢
    exact { h with
      sound := hsound
      grown := h.grown.trans (List.prefix_append _ [record]) }

theorem Serving.sync (h : Serving origin cursor stream connection) :
    Serving origin cursor { stream with world := stream.world.syncProjection.2 } connection :=
  { h with
    sound := h.sound.sync
    grown := by rw [(sync_store h.sound.synced).1]; exact h.grown }

omit [Digests] in
theorem Serving.query {seen : List EventCursor} {buffered wire : List ControlEvent}
    (h : Serving origin cursor stream ⟨.replaying replayCursor none, seen, buffered, wire⟩) :
    Serving origin cursor
      { stream with
        connection := some ⟨.replaying replayCursor
          (some (stream.world.projection.audit (some replayCursor) Connection.pageSize)),
          seen, buffered, wire⟩ }
      ⟨.replaying replayCursor
        (some (stream.world.projection.audit (some replayCursor) Connection.pageSize)),
        seen, buffered, wire⟩ where
  sound := ⟨h.sound.synced, h.sound.plain, h.sound.appended⟩
  connected := rfl
  grown := h.grown
  appended := h.appended
  kept := h.kept
  received := h.received
  honest := ⟨h.honest.wire, h.honest.buffered, h.honest.seen⟩
  caught := h.caught
  replayed := by
    obtain ⟨hle, hseen, -⟩ := h.replayed
    refine ⟨hle, hseen, ?_⟩
    intro events hevents
    obtain rfl := Option.some.inj hevents
    constructor
    · intro event hevent
      obtain ⟨row, hrow, rfl, hlt⟩ := mem_audit hevent
      have hbehind := hle.trans_lt hlt
      exact ⟨⟨row, rfl, h.sound.plain row (h.sound.synced.objects.mem_iff.mp hrow), .inl hbehind⟩,
        hbehind⟩
    · intro row hrow hlt
      have hobject := h.sound.synced.objects.mem_iff.mpr (h.grown.subset hrow)
      exact (audit_complete hobject hlt Connection.pageSize).imp id
        fun hfull ↦ ⟨hfull.1.ge, hfull.2⟩

omit [Digests] in
/-- What the replay has sent once its page is sent. -/
theorem replayed_sendPage {events : List ControlEvent}
    (hphase : connection.phase = .replaying replayCursor (some events))
    (h : Replayed origin cursor connection) :
    Replayed origin cursor (connection.sendPage replayCursor events) := by
  simp only [Replayed, hphase] at h
  obtain ⟨hle, hseen, hpage⟩ := h
  obtain ⟨hlater, hrest⟩ := hpage events rfl
  have hsent {row : Record} (hrow : row.event ∈ events) :
      row.cursor ∈ (events.foldl Connection.send connection).seen :=
    Connection.mem_seen_foldl_send.mpr (.inl (List.mem_map_of_mem hrow))
  have hkept {id : EventCursor} (hid : id ∈ connection.seen) :
      id ∈ (events.foldl Connection.send connection).seen :=
    Connection.mem_seen_foldl_send.mpr (.inr hid)
  unfold Connection.sendPage
  by_cases hshort : events.length < Connection.pageSize
  · -- a short page holds every row that is left
    simp only [if_pos hshort, Replayed, Connection.flush]
    intro row hrow hlt
    refine Connection.mem_seen_foldl_sendUnseen.mpr (.inr ?_)
    by_cases hbehind : row.cursor ≤ replayCursor
    · exact hkept (hseen row hrow hlt hbehind)
    · rcases hrest row hrow (not_le.mp hbehind) with hmem | ⟨hfull, -⟩
      · exact hsent hmem
      · exact absurd hshort hfull.not_gt
  · simp only [if_neg hshort, Replayed]
    obtain ⟨last, hlast⟩ : ∃ last, events.getLast? = some last := by
      rw [← Option.isSome_iff_exists, List.getLast?_isSome]
      rintro rfl
      exact hshort (by decide)
    have hlastMem := List.mem_of_getLast? hlast
    simp only [hlast, Option.map_some, Option.getD_some]
    refine ⟨?_, ?_, ?_⟩
    · exact (hlater last hlastMem).2.le
    · intro row hrow hlt hbefore
      by_cases hbehind : row.cursor ≤ replayCursor
      · exact hkept (hseen row hrow hlt hbehind)
      · rcases hrest row hrow (not_le.mp hbehind) with hmem | ⟨-, hpast⟩
        · exact hsent hmem
        · -- a row with the cursor of the page's last row was sent as that row
          have heq : row.cursor = last.id := le_antisymm hbefore (hpast last hlastMem)
          rw [heq]
          exact Connection.mem_seen_foldl_send.mpr (.inl (List.mem_map_of_mem hlastMem))
    · intro page hnone
      cases hnone

omit [Digests] in
theorem caught_sendPage {events : List ControlEvent}
    {page : Option (List ControlEvent)} (hphase : connection.phase = .replaying replayCursor page)
    (hcaught : connection.Caught record) :
    (connection.sendPage replayCursor events).Caught record := by
  simp only [Connection.Caught, hphase] at hcaught
  rw [← Connection.foldl_send_buffered] at hcaught
  unfold Connection.sendPage
  by_cases hshort : events.length < Connection.pageSize
  · simp only [if_pos hshort, Connection.Caught, Connection.flush]
    exact Connection.mem_seen_foldl_sendUnseen.mpr (.inl (List.mem_map_of_mem hcaught))
  · simp only [if_neg hshort, Connection.Caught]
    exact hcaught

omit [Digests] in
theorem Serving.page {events : List ControlEvent} (h : Serving origin cursor stream connection)
    (hphase : connection.phase = .replaying replayCursor (some events)) : Serving origin cursor
      { stream with connection := some (connection.sendPage replayCursor events) }
      (connection.sendPage replayCursor events) where
  sound := ⟨h.sound.synced, h.sound.plain, h.sound.appended⟩
  connected := rfl
  grown := h.grown
  appended := h.appended
  kept := h.kept
  received := h.received
  honest := by
    have hreplayed := h.replayed
    simp only [Replayed, hphase] at hreplayed
    exact h.honest.sendPage (fun event hevent ↦ ((hreplayed.2.2 events rfl).1 event hevent).1)
      replayCursor
  caught := fun record hrecord ↦ (h.caught record hrecord).imp id (caught_sendPage hphase)
  replayed := replayed_sendPage hphase h.replayed

omit [Digests] in
theorem Serving.receive {phase : StreamPhase} {seen : List EventCursor} {event : ControlEvent}
    {buffered wire : List ControlEvent}
    (h : Serving origin cursor stream ⟨phase, seen, buffered, event :: wire⟩) :
    Serving origin cursor
      { stream with
        connection := some ⟨phase, seen, buffered, wire⟩
        received := stream.received ++ [event] }
      ⟨phase, seen, buffered, wire⟩ where
  sound := ⟨h.sound.synced, h.sound.plain, h.sound.appended⟩
  connected := rfl
  grown := h.grown
  appended := h.appended
  kept := fun other hother ↦ List.mem_append_left [event] (h.kept other hother)
  received := by
    intro other hother
    rcases List.mem_append.mp hother with hold | hnew
    · exact h.received other hold
    · rw [List.mem_singleton.mp hnew]
      exact .inr (h.honest.wire event List.mem_cons_self)
  honest := by
    refine ⟨fun other hother ↦ h.honest.wire other (List.mem_cons_of_mem event hother),
      h.honest.buffered, ?_⟩
    intro id hid
    rw [List.append_assoc, List.singleton_append]
    exact h.honest.seen id hid
  caught := h.caught
  replayed := h.replayed

/-- A step that does not end the connection. -/
theorem Serving.step (h : Serving origin cursor stream connection) {action : StreamAction}
    (hdisconnect : action ≠ .disconnect) (hrestart : action ≠ .restart)
    (hstep : stream.step action = some stream') :
    ∃ connection', Serving origin cursor stream' connection' := by
  cases action with
  | append record =>
    cases hstep
    exact h.append record
  | syncProjection =>
    cases hstep
    exact ⟨connection, h.sync⟩
  | restart => exact absurd rfl hrestart
  | connect =>
    simp only [Stream.step, h.connected] at hstep
    cases hstep
  | query =>
    simp only [Stream.step, h.connected] at hstep
    split at hstep
    · next replayCursor seen buffered wire heq =>
      cases hstep
      cases heq
      exact ⟨_, h.query⟩
    · cases hstep
  | page =>
    simp only [Stream.step, h.connected] at hstep
    split at hstep
    · next replayCursor events seen buffered wire heq =>
      cases hstep
      cases heq
      exact ⟨_, h.page rfl⟩
    · cases hstep
  | receive =>
    simp only [Stream.step, h.connected] at hstep
    split at hstep
    · next phase seen buffered event wire heq =>
      cases hstep
      cases heq
      exact ⟨_, h.receive⟩
    · cases hstep
  | disconnect => exact absurd rfl hdisconnect

/-- The steps of one connection. -/
def Uninterrupted (actions : List StreamAction) : Prop :=
  ∀ action ∈ actions, action ≠ .disconnect ∧ action ≠ .restart

instance (actions : List StreamAction) : Decidable (Uninterrupted actions) :=
  inferInstanceAs (Decidable (∀ _ ∈ _, _))

/-- A run on one connection. -/
theorem Serving.run (h : Serving origin cursor stream connection) {actions : List StreamAction}
    (hactions : Uninterrupted actions) (hrun : stream.run actions = some stream') :
    ∃ connection', Serving origin cursor stream' connection' := by
  induction actions generalizing stream connection with
  | nil =>
    cases hrun
    exact ⟨connection, h⟩
  | cons action rest ih =>
    obtain ⟨next, hstep, hrest⟩ := Option.bind_eq_some_iff.mp hrun
    obtain ⟨hdisconnect, hrestart⟩ := hactions action List.mem_cons_self
    obtain ⟨connection', hnext⟩ := h.step hdisconnect hrestart hstep
    exact ih hnext (fun other hother ↦ hactions other (List.mem_cons_of_mem action hother)) hrest

/-! ### A reconnected client -/

/-- The client received the event of a record. -/
def Received (stream : Stream) (record : Record) : Prop :=
  record.cursor ∈ stream.received.map ControlEvent.id

/-- The replay is over and nothing is on the wire. -/
def Drained (stream : Stream) : Prop :=
  ∃ connection, stream.connection = some connection ∧ connection.phase = .live ∧
    connection.wire = []

omit [Digests] in
/-- On a drained connection, a row that was there and lies behind the cursor was received, and so
was every record appended since. -/
theorem Serving.received_of_drained (h : Serving origin cursor stream connection)
    (hdrained : stream.Drained) :
    (∀ row ∈ origin.world.store.records, cursor < row.cursor → stream.Received row) ∧
      ∀ record ∈ stream.appended, record ∈ origin.appended ∨ stream.Received record := by
  obtain ⟨connection', hconnected, hlive, hwire⟩ := hdrained
  obtain rfl : connection' = connection := Option.some.inj (hconnected.symm.trans h.connected)
  have hseen : ∀ id ∈ connection'.seen, id ∈ stream.received.map ControlEvent.id := by
    have hhonest := h.honest.seen
    rwa [hwire, List.append_nil] at hhonest
  have hreplayed := h.replayed
  simp only [Replayed, hlive] at hreplayed
  refine ⟨fun row hrow hlt ↦ hseen _ (hreplayed row hrow hlt), fun record hrecord ↦ ?_⟩
  rcases h.caught record hrecord with hold | hcaught
  · exact .inl hold
  · simp only [Connection.Caught, hlive] at hcaught
    exact .inr (hseen _ hcaught)

omit [Digests] in
/-- A row that was there and does not lie behind the cursor is not received on the connection. -/
theorem Serving.not_received (h : Serving origin cursor stream connection) {row : Record}
    (hrow : row ∈ origin.world.store.records) (hcursor : ¬ cursor < row.cursor)
    (hmissed : ¬ origin.Received row) : ¬ stream.Received row := by
  intro hreceived
  obtain ⟨event, hevent, hid⟩ := List.mem_map.mp hreceived
  rcases h.received event hevent with hold | ⟨other, rfl, hplain, hlater⟩
  · exact hmissed (List.mem_map.mpr ⟨event, hold, hid⟩)
  · rcases hlater with hlt | hfree
    · exact hcursor (hid ▸ hlt)
    · -- the event of a later record, which has another path
      have hpath : row.key.path = other.key.path := congrArg EventCursor.key hid.symm
      have hkey := ObjectKey.path_injective (h.sound.plain row (h.grown.subset hrow)) hplain hpath
      exact hfree row hrow hkey

/-- The service as it starts to serve a client: the projection holds what the store holds. -/
structure Initial (stream : Stream) : Prop where
  sound : stream.Sound
  connection : stream.connection = none
  received : stream.received = []

theorem delivers_iff {start origin stream : Stream} {before during : List StreamAction}
    {last : Record} (hstart : start.Initial) (hbefore : start.run before = some origin)
    (hlast : origin.lastEventId = some last.cursor)
    (hduring : origin.run (.connect :: during) = some stream) (hone : Uninterrupted during)
    (hdrained : stream.Drained) :
    (∀ record, stream.AppendedAfter last record → stream.Received record) ↔
      ∀ record, origin.AppendedAfter last record →
        origin.Received record ∨ last.cursor < record.cursor := by
  have hsound := hstart.sound.run hbefore
  obtain ⟨next, hconnect, hrun⟩ := Option.bind_eq_some_iff.mp hduring
  obtain ⟨connection, hserving⟩ : ∃ connection, Serving origin last.cursor stream connection := by
    simp only [step] at hconnect
    split at hconnect
    · cases hconnect
      rw [hlast] at hrun
      exact (Serving.start hsound).run hone hrun
    · cases hconnect
  constructor
  · intro hall record hrecord
    by_cases hcursor : last.cursor < record.cursor
    · exact .inr hcursor
    · left
      by_contra hmissed
      have hstored := hsound.appended record hrecord.1
      refine hserving.not_received hstored hcursor hmissed (hall record ⟨?_, ?_⟩)
      · exact hserving.appended record hrecord.1
      · exact hrecord.2.extend hserving.grown
  · intro hcondition record hrecord
    obtain ⟨hrows, hnew⟩ := hserving.received_of_drained hdrained
    rcases hnew record hrecord.1 with hold | hreceived
    · have hstored := hsound.appended record hold
      have hafter := hrecord.2.restrict hserving.grown hserving.sound.synced.keyed.nodup hstored
      rcases hcondition record ⟨hold, hafter⟩ with hreceived | hlt
      · obtain ⟨event, hevent, hid⟩ := List.mem_map.mp hreceived
        exact List.mem_map.mpr ⟨event, hserving.kept event hevent, hid⟩
      · exact hrows record hstored hlt
    · exact hreceived

end Stream

/-! ### An advancement while the client is away -/

namespace Stream

section

local instance deliveryDigests : Digests := plainDigests

/-- A service with an empty store. -/
def idle : Stream := ⟨emptyWorld, [], none, []⟩

theorem idle_initial : idle.Initial :=
  ⟨⟨emptyWorld_synced, fun _ h ↦ absurd h List.not_mem_nil, fun _ h ↦ absurd h List.not_mem_nil⟩,
    rfl, rfl⟩

def servedLock : CampaignLock :=
  { recordId := "lock"
    createdAt := 1
    actor := serviceActor
    campaignId := "campaign"
    profiles := []
    tasks := [⟨"task", "digest", none, none⟩]
    ceilingMicrousd := 10
    sourceRevision := "revision" }

def servedIntent : ActionIntent :=
  { recordId := "intent"
    createdAt := 1
    actor := serviceActor
    actionId := "launch"
    campaignId := "campaign"
    actionKind := .jobLaunch
    generation := 0
    target := "campaign-tasks"
    payload := {} }

def servedReceipt : ActionReceipt :=
  { recordId := "receipt"
    createdAt := 2
    actor := serviceActor
    actionId := "launch"
    campaignId := "campaign"
    outcome := .completed
    resourceId := some "job"
    observedState := "launched"
    errorCode := none
    readyReplicas := none
    activeHourlyCostMicrousd := none
    costMicrousd := none }

/-- An access list, written at a time of the operator's clock. -/
def servedAcl (createdAt : ℕ) : Record :=
  .operatorAcl ⟨"acl", createdAt, serviceActor, ["operator"], []⟩

/-- The record with which the reconciler closes the action; it has the time of the receipt. -/
def servedAdvanced : Record := .actionAdvanced (advancedRecord servedIntent servedReceipt)

/-- The client receives the live events up to the access list, and the action is advanced while it
is away. -/
def away (createdAt : ℕ) : List StreamAction :=
  [.connect, .append (.campaignLock servedLock), .append (.actionIntent servedIntent),
    .append (.actionReceipt servedReceipt), .append (servedAcl createdAt), .receive, .receive,
    .receive, .receive, .disconnect, .append servedAdvanced]

/-- What the client received before it was away. -/
def servedBefore (createdAt : ℕ) : List Record :=
  [.campaignLock servedLock, .actionIntent servedIntent, .actionReceipt servedReceipt,
    servedAcl createdAt]

theorem advancement_missed : ∃ origin stream, idle.Initial ∧ idle.run (away 3) = some origin ∧
      origin.lastEventId = some (servedAcl 3).cursor ∧
      origin.run [.connect, .query, .page] = some stream ∧ stream.Drained ∧
      stream.AppendedAfter (servedAcl 3) servedAdvanced ∧ ¬ stream.Received servedAdvanced := by
  have hrun : ((idle.run (away 3)).bind fun origin ↦
      (origin.run [.connect, .query, .page]).map fun stream ↦
        (origin.lastEventId, stream.connection, stream.appended, stream.world.store.records,
          stream.received.map ControlEvent.id)) =
      some (some (servedAcl 3).cursor, some ⟨.live, [], [], []⟩,
        servedBefore 3 ++ [servedAdvanced], servedBefore 3 ++ [servedAdvanced],
        (servedBefore 3).map Record.cursor) := by
    decide +kernel
  obtain ⟨origin, horigin, hrest⟩ := Option.bind_eq_some_iff.mp hrun
  obtain ⟨stream, hstream, hfacts⟩ := Option.map_eq_some_iff.mp hrest
  simp only [Prod.mk.injEq] at hfacts
  obtain ⟨hlast, hconnection, happended, hrecords, hreceived⟩ := hfacts
  refine ⟨origin, stream, idle_initial, horigin, hlast, hstream, ⟨_, hconnection, rfl, rfl⟩,
    ⟨?_, ?_⟩, ?_⟩
  · rw [happended]
    exact List.mem_append_right _ (List.mem_singleton_self _)
  · rw [hrecords]
    exact ⟨[.campaignLock servedLock, .actionIntent servedIntent, .actionReceipt servedReceipt],
      [servedAdvanced], rfl, List.mem_singleton_self _⟩
  · unfold Received
    rw [hreceived]
    decide +kernel

theorem advancement_delivered : ∃ origin stream, idle.Initial ∧ idle.run (away 1) = some origin ∧
      origin.lastEventId = some (servedAcl 1).cursor ∧
      origin.run [.connect, .query, .page, .receive, .receive] = some stream ∧ stream.Drained ∧
      stream.lastEventId = some servedAdvanced.cursor ∧
      ∀ record, stream.AppendedAfter (servedAcl 1) record → stream.Received record := by
  have hrun : ((idle.run (away 1)).bind fun origin ↦
      (origin.run [.connect, .query, .page, .receive, .receive]).map fun stream ↦
        (origin.lastEventId, stream.connection, origin.appended, stream.lastEventId,
          origin.received.map ControlEvent.id)) =
      some (some (servedAcl 1).cursor,
        some ⟨.live, [servedAdvanced.cursor, (Record.actionReceipt servedReceipt).cursor], [], []⟩,
        servedBefore 1 ++ [servedAdvanced], some servedAdvanced.cursor,
        (servedBefore 1).map Record.cursor) := by
    decide +kernel
  obtain ⟨origin, horigin, hrest⟩ := Option.bind_eq_some_iff.mp hrun
  obtain ⟨stream, hstream, hfacts⟩ := Option.map_eq_some_iff.mp hrest
  simp only [Prod.mk.injEq] at hfacts
  obtain ⟨hlast, hconnection, happended, hgot, hreceived⟩ := hfacts
  have hdrained : stream.Drained := ⟨_, hconnection, rfl, rfl⟩
  refine ⟨origin, stream, idle_initial, horigin, hlast, hstream, hdrained, hgot, ?_⟩
  refine (delivers_iff idle_initial horigin hlast hstream (by decide) hdrained).mpr ?_
  intro record hrecord
  have hmem := hrecord.1
  rw [happended] at hmem
  rcases List.mem_append.mp hmem with hbefore | hadvanced
  · left
    unfold Received
    rw [hreceived]
    exact List.mem_map_of_mem hbefore
  · right
    rw [List.mem_singleton.mp hadvanced, EventCursor.lt_iff]
    exact .inl (by decide)

end

end Stream

end HarborHF.Control
