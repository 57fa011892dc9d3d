import EventStore.Aggregate
import EventStore.Bus
import EventStore.Event.Codec
import EventStore.Storage.Table

/-! Repositories.

A repository keeps the aggregates of one type in a storage. To save them is to append their pending
events in one batch, to publish each of them, and then to clear them; if anything fails the
aggregates stay as they were, so that the save may be repeated. To load aggregates is to replay
their rows. -/

namespace EventStore

open Text

structure LoadOptions where
  /-- The highest version to replay. -/
  maxVersion : Option Nat := none
  /-- Whether to load deleted aggregates too. -/
  includeDeleted : Bool := false
deriving DecidableEq, Repr

/-- Why the envelope of a row is no envelope of an event. -/
inductive RowFault where
  | identity (e : IdentityError)
  | deleteAction (e : UnknownDeleteAction)
deriving DecidableEq, Repr

def RowFault.message : RowFault → String
  | .identity e => e.message
  | .deleteAction e => e.message

inductive RepositoryError where
  | aggregate (e : AggregateError)
  | storage (e : StorageError)
  | publish (e : BusError)
  | eventTypeNotFound (row : EventRow)
  | undecodable (row : EventRow) (e : CodecError)
  | unencodable (aggregateType aggregateId eventType : String) (e : CodecError)
  | corruptRow (row : EventRow) (fault : RowFault)
deriving DecidableEq

namespace RepositoryError

/-- The name of a kind of error, followed by that of its cause. -/
def kind : RepositoryError → String
  | .aggregate e => "Aggregate/" ++ e.kind
  | .storage e => "Storage/" ++ e.kind
  | .publish e => "Publish/" ++ e.kind
  | .eventTypeNotFound _ => "EventTypeNotFound"
  | .undecodable .. => "EventDataDeserializationFailed"
  | .unencodable _ _ _ e => "EventSerializationFailed/" ++ e.kind
  | .corruptRow .. => "CorruptRow"

/-- The row that an error is about. -/
def row? : RepositoryError → Option EventRow
  | .eventTypeNotFound row | .undecodable row _ | .corruptRow row _ => some row
  | _ => none

def message : RepositoryError → String
  | .aggregate e => e.message
  | .storage e => e.message
  | .publish e => "Failed to publish events: " ++ e.message
  | .eventTypeNotFound row => "Unknown event type " ++ row.describe
  | .undecodable row e => "Cannot deserialize " ++ row.describe ++ ": " ++ e.message
  | .unencodable aggregateType aggregateId eventType e =>
    "Cannot serialize " ++ eventType ++ " for " ++ aggregateType ++ " " ++ aggregateId ++ ": "
      ++ e.message
  | .corruptRow row fault => "Corrupt row " ++ row.describe ++ ": " ++ fault.message

/-- Whether another writer was faster. -/
def isConflict : RepositoryError → Bool
  | .storage (.conflict _) => true
  | _ => false

end RepositoryError

/-- What publishes the events of a type, with states in `π`. -/
structure Publisher (P π : Type) where
  publish : RecordedEvent P → StateM π (Except BusError Unit)

/-- What a repository needs to turn rows into aggregates and back. -/
structure Mapping (S P : Type) where
  blueprint : Blueprint S P
  codec : Codec P

namespace Mapping

variable {S P : Type} (m : Mapping S P)

/-- The row of an event. An owner, an id and a time stand in for those that its envelope lacks. -/
def eventRow (owner : AggregateId) (stamp : Stamp) (e : DomainEvent P) :
    Except CodecError EventRow :=
  (m.codec.encode e.payload).map fun encoded =>
    { aggregateType := m.blueprint.name
      aggregateId := (e.aggregateId.getD owner).text
      eventType := encoded.eventType
      body := encoded.body
      eventId := e.id.getD stamp.id
      actorId := e.actorId.map (·.text)
      occurredOn := e.occurredOn.getD stamp.time
      version := e.versionNumber
      deleteAction := e.deleteAction.tag }

/-- The row of a pending event, whose envelope lacks nothing. -/
def toRow (e : RecordedEvent P) : Except CodecError EventRow :=
  m.eventRow e.aggregateId ⟨e.id, e.occurredOn⟩ e.event

/-- The rows of the pending events of an aggregate. -/
def pendingRows (a : Aggregate S P) : Except RepositoryError (List EventRow) :=
  a.pending.mapM fun e =>
    match m.toRow e with
    | .ok row => .ok row
    | .error error =>
      .error (.unencodable m.blueprint.name a.id.text (m.blueprint.eventType e.payload) error)

/-- The identity that a row gives; a fault is one of the row. -/
def rowIdentity {kind : IdentityKind} (row : EventRow) (s : String) :
    Except RepositoryError (Identity kind) :=
  match Identity.ofText s with
  | .ok i => .ok i
  | .error e => .error (.corruptRow row (.identity e))

/-- The event of a row. The envelope is checked before the payload is decoded. -/
def ofRow (row : EventRow) : Except RepositoryError (DomainEvent P) := do
  let aggregateId ← rowIdentity row row.aggregateId
  let actorId ←
    match row.actorId with
    | none => .ok none
    | some s => (rowIdentity row s).map some
  let deleteAction ←
    match DeleteAction.ofTag row.deleteAction with
    | .ok a => .ok a
    | .error e => .error (.corruptRow row (.deleteAction e))
  let payload ←
    match m.codec.decode row.eventType row.body with
    | .ok payload => .ok payload
    | .error (.eventTypeNotFound _) => .error (.eventTypeNotFound row)
    | .error e => .error (.undecodable row e)
  return {
    id := some row.eventId
    aggregateId := some aggregateId
    version := some row.version
    actorId
    occurredOn := some row.occurredOn
    deleteAction
    payload }

/-- Whether a row belongs to the aggregates of this type, up to a version. -/
def selects (options : LoadOptions) (row : EventRow) : Bool :=
  row.aggregateType = m.blueprint.name
    && options.maxVersion.all fun version => row.version ≤ version

/-- Of rows with one event id the first. -/
def firstOccurrences (seen : List Uuid) : List EventRow → List EventRow
  | [] => []
  | row :: l =>
    if row.eventId ∈ seen then firstOccurrences seen l
    else row :: firstOccurrences (row.eventId :: seen) l

/-- Adds an event to the group of its aggregate, which is the last one if it is new. -/
def addToGroup (id : String) (e : DomainEvent P) :
    List (String × List (DomainEvent P)) → List (String × List (DomainEvent P))
  | [] => [(id, [e])]
  | (id', l) :: groups =>
    if id = id' then (id', l ++ [e]) :: groups else (id', l) :: addToGroup id e groups

/-- Events by aggregate, in the order in which the aggregates occur. -/
def grouped (l : List (String × DomainEvent P)) : List (String × List (DomainEvent P)) :=
  l.foldl (fun groups (id, e) => addToGroup id e groups) []

/-- Replays the events of a group. -/
def rebuild (id : String) (events : List (DomainEvent P)) :
    Except RepositoryError (Aggregate S P) :=
  match (Identity.ofText id : Except IdentityError AggregateId) with
  | .error e => .error (.aggregate (.invalidIdentity e))
  | .ok id =>
    match Aggregate.replay m.blueprint id events with
    | .error e => .error (.aggregate e)
    | .ok a => .ok a

/-- The aggregates whose events the rows hold. All rows are decoded before the first replay. -/
def aggregatesOfRows (options : LoadOptions) (rows : List EventRow) :
    Except RepositoryError (List (Aggregate S P)) := do
  let rows := firstOccurrences [] (rows.filter (m.selects options))
  let events ← rows.mapM fun row => (m.ofRow row).map (row.aggregateId, ·)
  let aggregates ← (grouped events).mapM fun (id, events) => m.rebuild id events
  return aggregates.filter fun a => !a.isDeleted || options.includeDeleted

/-- The filter for all aggregates of the type. -/
def filter (options : LoadOptions) : EventFilter :=
  { aggregateType := m.blueprint.name, maxVersion := options.maxVersion }

end Mapping

abbrev RepositoryM (σ π : Type) := ExceptT RepositoryError (StateM (σ × π))

/-- Actions of a repository on something that its caller holds, such as aggregates. What they have
done to it stays done when they fail. -/
abbrev SaveM (α σ π : Type) := ExceptT RepositoryError (StateM (α × (σ × π)))

structure Repository (S P σ π : Type) extends Mapping S P where
  storage : Storage σ
  publisher : Publisher P π
  /-- Whether loads include deleted aggregates unless they are told otherwise. -/
  includeDeleted : Bool := false

namespace Repository

variable {S P σ π α β : Type} (r : Repository S P σ π)

/-- The options of a load that is given none. -/
def defaultOptions : LoadOptions := { includeDeleted := r.includeDeleted }

/-- Runs an action of the storage. -/
def stored (action : StorageM σ α) : RepositoryM σ π α := fun (s, p) =>
  match action s with
  | (.ok a, s) => (.ok a, (s, p))
  | (.error e, s) => (.error (.storage e), (s, p))

/-- Publishes an event. -/
def published (e : RecordedEvent P) : RepositoryM σ π Unit := fun (s, p) =>
  match r.publisher.publish e p with
  | (.ok (), p) => (.ok (), (s, p))
  | (.error error, p) => (.error (.publish error), (s, p))

/-- A result that was found without the state. -/
def ofExcept : Except RepositoryError α → RepositoryM σ π α
  | .ok a => pure a
  | .error e => throw e

/-- Appends the pending events of aggregates in one batch. Tells whether there are any. -/
def appendPending (l : List (Aggregate S P)) : RepositoryM σ π Bool := do
  let rows ← ofExcept (l.mapM r.pendingRows)
  let rows := rows.flatten
  if rows.isEmpty then return false
  stored (r.storage.append rows)
  return true

/-- Runs an action that leaves what the caller holds. -/
def leaving (action : RepositoryM σ π α) : SaveM β σ π α := fun (b, s) =>
  let (result, s) := action s
  (result, (b, s))

/-- Saves the aggregates in one batch. They lose their pending events at the end, after all has
succeeded. -/
def saveAll : SaveM (List (Aggregate S P)) σ π Unit := do
  let (l, _) ← get
  if ← leaving (r.appendPending l) then
    leaving ((l.flatMap (·.pending)).forM r.published)
    modify fun (l, s) => (l.map Aggregate.clearChanges, s)

/-- Saves the aggregate. -/
def save : SaveM (Aggregate S P) σ π Unit := fun (a, s) =>
  let (result, (l, s)) := r.saveAll ([a], s)
  (result, (l.headD a, s))

/-- The aggregates of the rows that a filter accepts. -/
def loadFiltered (f : EventFilter) (options : LoadOptions) :
    RepositoryM σ π (List (Aggregate S P)) := do
  ofExcept (r.aggregatesOfRows options (← stored (r.storage.read f)))

def loadMany (ids : List AggregateId) (options : LoadOptions) :
    RepositoryM σ π (List (Aggregate S P)) :=
  r.loadFiltered { r.filter options with aggregateIds := some (ids.map (·.text)) } options

/-- Loads an aggregate; there is none if it has no events, or is deleted. -/
def load (id : AggregateId) (options : LoadOptions) : RepositoryM σ π (Option (Aggregate S P)) := do
  return (← r.loadMany [id] options).getLast?

def loadAll (options : LoadOptions) : RepositoryM σ π (List (Aggregate S P)) :=
  r.loadFiltered (r.filter options) options

/-- Loads the aggregates that are found by way of a projection. -/
def loadProjected (s : TableStore) (x : Executor σ) (p : ProjectionFilter) (options : LoadOptions) :
    RepositoryM σ π (List (Aggregate S P)) := do
  let rows ← stored (s.readProjected x r.blueprint.name p options.maxVersion)
  ofExcept (r.aggregatesOfRows options rows)

end Repository

end EventStore
