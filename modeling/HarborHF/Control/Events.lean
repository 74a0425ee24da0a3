import Mathlib.Data.Prod.Lex
import HarborHF.Control.Append

/-!
# The event stream

Every record that the service takes into its projection is published as a `ControlEvent`. The id of
an event is its cursor: the creation time and the path of the record, which the source joins with a
NUL character and writes in base64url. `audit` is the keyset query that reads the rows behind a
cursor, in the order of their cursors and at most `limit` of them.

`Stream` is the service with one client of `GET /api/v1/events`. The route subscribes to the bus
before it replays: while it replays, published events are buffered; it asks for pages of 500 rows
until a page is short, and only then sends the buffered events it has not sent and goes over to
sending live ones. A page is asked for in one step (`query`) and sent in another (`page`), so
appends may come between. What is sent is on the wire until the client receives it, in order, and a
disconnect loses what is on the wire. The client reconnects with the id of the last event it
received.
-/

set_option autoImplicit false

namespace HarborHF.Control

open Relational

/-! ### Paths -/

namespace ObjectKey

/-- The identifiers in a key. -/
def identifiers : ObjectKey → List String
  | profileObject _ recordId => [recordId]
  | profilePromotion _ aliasName recordId => [aliasName, recordId]
  | operatorAcl recordId => [recordId]
  | campaignRequest campaignId => [campaignId]
  | campaignLock campaignId => [campaignId]
  | preparedTrial campaignId taskId => [campaignId, taskId]
  | preparedJob campaignId => [campaignId]
  | actionIntent campaignId actionId => [campaignId, actionId]
  | actionDispatch campaignId actionId => [campaignId, actionId]
  | actionReceipt campaignId actionId => [campaignId, actionId]
  | actionAdvanced campaignId actionId => [campaignId, actionId]
  | attemptReceipt campaignId taskId attemptId => [campaignId, taskId, attemptId]
  | terminalSelection campaignId taskId recordId => [campaignId, taskId, recordId]
  | budgetEvent campaignId recordId => [campaignId, recordId]
  | endpointResource campaignId actionId => [campaignId, actionId]
  | publicationReceipt campaignId publicationId => [campaignId, publicationId]
  | migrationRecord recordId => [recordId]

/-- The identifiers hold no slash, as the pattern of the record schema has it. -/
def Plain (key : ObjectKey) : Prop := ∀ identifier ∈ key.identifiers, '/' ∉ identifier.toList

instance (key : ObjectKey) : Decidable key.Plain := inferInstanceAs (Decidable (∀ _ ∈ _, _))

/-- The segments of a path below the root of the control records. -/
def segments : ObjectKey → List String
  | profileObject kind recordId => ["profiles", "objects", kind.name, recordId ++ ".json"]
  | profilePromotion kind aliasName recordId =>
    ["profiles", "promotions", kind.name, aliasName, recordId ++ ".json"]
  | operatorAcl recordId => ["operators", recordId ++ ".json"]
  | campaignRequest campaignId => ["campaigns", campaignId, "request.json"]
  | campaignLock campaignId => ["campaigns", campaignId, "campaign.lock.json"]
  | preparedTrial campaignId taskId =>
    ["campaigns", campaignId, "prepared", "trials", taskId ++ ".json"]
  | preparedJob campaignId => ["campaigns", campaignId, "prepared", "zz-manifest.json"]
  | actionIntent campaignId actionId =>
    ["campaigns", campaignId, "actions", actionId, "intent.json"]
  | actionDispatch campaignId actionId =>
    ["campaigns", campaignId, "actions", actionId, "q-dispatch.json"]
  | actionReceipt campaignId actionId =>
    ["campaigns", campaignId, "actions", actionId, "receipt.json"]
  | actionAdvanced campaignId actionId =>
    ["campaigns", campaignId, "actions", actionId, "zz-advanced.json"]
  | attemptReceipt campaignId taskId attemptId =>
    ["campaigns", campaignId, "tasks", taskId, "attempts", attemptId, "receipt.json"]
  | terminalSelection campaignId taskId recordId =>
    ["campaigns", campaignId, "tasks", taskId, "terminal", recordId ++ ".json"]
  | budgetEvent campaignId recordId => ["campaigns", campaignId, "budgets", recordId ++ ".json"]
  | endpointResource campaignId actionId =>
    ["campaigns", campaignId, "resources", "endpoints", actionId ++ ".json"]
  | publicationReceipt campaignId publicationId =>
    ["campaigns", campaignId, "publications", publicationId ++ ".json"]
  | migrationRecord recordId => ["migrations", recordId ++ ".json"]

theorem path_eq (key : ObjectKey) :
    key.path = String.intercalate "/" ("control" :: "schema=v1" :: key.segments) := by
  rw [← String.toList_inj]
  cases key <;> unfold path segments <;> try unfold campaignRoot
  all_goals
    simp only [String.toList_append, String.toList_intercalate, List.map_cons, List.map_nil,
      List.intercalate_cons_cons, List.intercalate_singleton, String.reduceToList,
      List.cons_append, List.nil_append, List.append_assoc]

theorem kindName_injective : Function.Injective ProfileKind.name := by
  intro first second h
  cases first <;> cases second <;> first | rfl | exact absurd h (by decide)

theorem segments_injective : Function.Injective segments := by
  intro first second h
  cases first <;> cases second <;> simp_all [segments, kindName_injective.eq_iff]

theorem slash_notMem_segments {key : ObjectKey} (h : key.Plain) :
    ∀ segment ∈ "control" :: "schema=v1" :: key.segments, '/' ∉ segment.toList := by
  have hkind (kind : ProfileKind) : '/' ∉ kind.name.toList := by
    cases kind <;> decide
  cases key <;> simp_all [segments, Plain, identifiers]

/-- The paths of plain keys differ. -/
theorem path_injective {first second : ObjectKey} (hfirst : first.Plain) (hsecond : second.Plain)
    (hpath : first.path = second.path) : first = second := by
  have hsplit {key : ObjectKey} (h : key.Plain) :
      key.path.toList.splitOn '/' =
        ("control" :: "schema=v1" :: key.segments).map String.toList := by
    rw [path_eq, String.toList_intercalate]
    refine List.splitOn_intercalate '/' ?_ (by simp)
    intro segment hsegment
    obtain ⟨text, htext, rfl⟩ := List.mem_map.mp hsegment
    exact slash_notMem_segments h text htext
  have hsegments := (hsplit hfirst).symm.trans (hpath ▸ hsplit hsecond)
  have hinjective : Function.Injective String.toList := fun _ _ h ↦ String.toList_injective h
  rw [(List.map_injective_iff.mpr hinjective).eq_iff] at hsegments
  exact segments_injective (List.cons.inj (List.cons.inj hsegments).2).2

end ObjectKey

/-! ### Events -/

/-- The id of an event: the creation time and the path of its record. -/
structure EventCursor where
  occurredAt : ℕ
  key : String
  deriving DecidableEq

namespace EventCursor

theorem toLex_injective :
    Function.Injective fun cursor : EventCursor ↦ toLex (cursor.occurredAt, cursor.key) := by
  rintro ⟨occurredAt, key⟩ ⟨occurredAt', key'⟩ h
  simpa using h

instance : LinearOrder EventCursor :=
  LinearOrder.lift' (fun cursor ↦ toLex (cursor.occurredAt, cursor.key)) toLex_injective

theorem lt_iff {first second : EventCursor} :
    first < second ↔ first.occurredAt < second.occurredAt ∨
      (first.occurredAt = second.occurredAt ∧ first.key < second.key) :=
  Prod.Lex.lt_iff

theorem le_iff {first second : EventCursor} :
    first ≤ second ↔ first.occurredAt < second.occurredAt ∨
      (first.occurredAt = second.occurredAt ∧ first.key ≤ second.key) :=
  Prod.Lex.le_iff

end EventCursor

def eventCursor (occurredAt : ℕ) (key : ObjectKey) : EventCursor := ⟨occurredAt, key.path⟩

/-- An event of the stream. Its type is the kind of the key. -/
structure ControlEvent where
  id : EventCursor
  occurredAt : ℕ
  key : ObjectKey
  deriving DecidableEq

namespace Record

def cursor (record : Record) : EventCursor := eventCursor record.createdAt record.key

def event (record : Record) : ControlEvent := ⟨record.cursor, record.createdAt, record.key⟩

end Record

/-! ### The replay query -/

/-- A row lies behind a cursor. -/
def EventCursor.Precedes (cursor : EventCursor) (row : Record) : Prop :=
  cursor.occurredAt < row.createdAt ∨
    (row.createdAt = cursor.occurredAt ∧ cursor.key < row.key.path)

instance (cursor : EventCursor) (row : Record) : Decidable (cursor.Precedes row) :=
  inferInstanceAs (Decidable (_ ∨ _))

/-- The rows behind a cursor in the order of their cursors, at most `limit` of them. -/
def Projection.audit (P : Projection) (cursor : Option EventCursor) (limit : ℕ) :
    List ControlEvent :=
  let rows := P.objects.filter fun row ↦ cursor.all fun cursor ↦ decide (cursor.Precedes row)
  let order := Projection.Chronological Record.createdAt fun row ↦ row.key.path
  ((rows.insertionSort order).take limit).map Record.event

/-! ### A connection -/

/-- Where the route is: it replays from a cursor, with the page of the query that was answered, or
it sends live events. -/
inductive StreamPhase
  | replaying (replayCursor : EventCursor) (page : Option (List ControlEvent))
  | live
  deriving DecidableEq

/-- A request of the route. `wire` holds what was sent and not yet received. -/
structure Connection where
  phase : StreamPhase
  seen : List EventCursor
  buffered : List ControlEvent
  wire : List ControlEvent
  deriving DecidableEq

namespace Connection

/-- The size of a page of the replay. -/
def pageSize : ℕ := 500

/-- Subscribe, and replay if the request names a cursor. -/
def start (cursor : Option EventCursor) : Connection :=
  ⟨match cursor with
    | some cursor => .replaying cursor none
    | none => .live, [], [], []⟩

/-- Send an event. -/
def send (connection : Connection) (event : ControlEvent) : Connection :=
  { connection with seen := event.id :: connection.seen, wire := connection.wire ++ [event] }

/-- Send an event unless it was sent. -/
def sendUnseen (connection : Connection) (event : ControlEvent) : Connection :=
  if event.id ∈ connection.seen then connection else connection.send event

/-- The listener of the event bus. -/
def publish (connection : Connection) (event : ControlEvent) : Connection :=
  match connection.phase with
  | .replaying _ _ => { connection with buffered := connection.buffered ++ [event] }
  | .live => connection.sendUnseen event

/-- Leave the replay: send what was buffered, and go over to live events. -/
def flush (connection : Connection) : Connection :=
  { connection.buffered.foldl sendUnseen connection with phase := .live, buffered := [] }

/-- Send a page of the replay, and replay on from its last event unless it is short. -/
def sendPage (connection : Connection) (replayCursor : EventCursor) (page : List ControlEvent) :
    Connection :=
  let sent := page.foldl send connection
  if page.length < pageSize then sent.flush
  else
    { sent with
      phase := .replaying ((page.getLast?.map ControlEvent.id).getD replayCursor) none }

end Connection

/-! ### The service and a client -/

/-- The service with one client. `appended` lists the records whose append succeeded, in their
order; `received` is everything the client ever received. -/
structure Stream where
  world : World
  appended : List Record
  connection : Option Connection
  received : List ControlEvent
  deriving DecidableEq

/-- What happens to the stream. -/
inductive StreamAction
  | append (record : Record)
  | syncProjection
  | restart
  | connect
  | query
  | page
  | receive
  | disconnect
  deriving DecidableEq

namespace Stream

variable [Digests]

/-- Whether an append publishes its record: it does when the projection takes the record in. -/
def publishes (world : World) (record : Record) : Bool :=
  (world.projection.objectAt record.key).isNone && (world.append record).1.toBool

/-- The id the client reconnects with. -/
def lastEventId (stream : Stream) : Option EventCursor :=
  stream.received.getLast?.map ControlEvent.id

/-- An append of the service. The schema refuses identifiers with a slash. -/
def append (record : Record) (stream : Stream) : Stream :=
  if record.key.Plain then
    if publishes stream.world record then
      { stream with
        world := (stream.world.append record).2
        appended := stream.appended ++ [record]
        connection := stream.connection.map fun connection ↦ connection.publish record.event }
    else { stream with world := (stream.world.append record).2 }
  else stream

/-- One step of the service or the client. -/
def step (stream : Stream) : StreamAction → Option Stream
  | .append record => some (stream.append record)
  | .syncProjection => some { stream with world := stream.world.syncProjection.2 }
  | .restart =>
    stream.world.restart.map fun world ↦ { stream with world := world, connection := none }
  | .connect =>
    match stream.connection with
    | none => some { stream with connection := some (Connection.start stream.lastEventId) }
    | some _ => none
  | .query =>
    match stream.connection with
    | some ⟨.replaying cursor none, seen, buffered, wire⟩ =>
      some { stream with
        connection := some ⟨.replaying cursor
          (some (stream.world.projection.audit (some cursor) Connection.pageSize)),
          seen, buffered, wire⟩ }
    | _ => none
  | .page =>
    match stream.connection with
    | some ⟨.replaying cursor (some page), seen, buffered, wire⟩ =>
      some { stream with
        connection := some (Connection.sendPage
          ⟨.replaying cursor (some page), seen, buffered, wire⟩ cursor page) }
    | _ => none
  | .receive =>
    match stream.connection with
    | some ⟨phase, seen, buffered, event :: wire⟩ =>
      some { stream with
        connection := some ⟨phase, seen, buffered, wire⟩
        received := stream.received ++ [event] }
    | _ => none
  | .disconnect => stream.connection.map fun _ ↦ { stream with connection := none }

/-- A sequence of steps. -/
def run (stream : Stream) (actions : List StreamAction) : Option Stream :=
  actions.foldlM step stream

end Stream

end HarborHF.Control
