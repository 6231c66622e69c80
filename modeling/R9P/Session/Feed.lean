import R9P.Base.Runs
import R9P.Session.Cache
import R9P.Session.Record

/-!
# The change feed worker

Library `Session`. The loop of `crates/session/src/feed/worker.rs` against a server that keeps
a log of change records: open the stream, catch up from the cursor, read the stream until it
fails, publish the loss and start again. What the worker reads goes into the namespace cache
as marks and to the event bus as events. Appended records, lost connections, read sizes and
time-outs come in any order.
-/

namespace R9P.Session
open Base Wire

/-! ### The event bus, `event.rs` -/

/-- The two sources of a record, `worker.rs:344`. -/
inductive FeedSource where
  | stream
  | catchUp
  deriving DecidableEq, Repr

/-- `event.rs:12`. -/
inductive FeedEvent where
  | change (change : NamespaceChange) (source : FeedSource) (cursorComplete : Bool)
  | coarseInvalidation (reason : String)
  deriving DecidableEq, Repr

/-- The bus and the queue of every subscriber that has not been closed; `event.rs:25`. -/
structure FeedEventBus where
  queues : List (List FeedEvent)
  capacity : Nat
  deriving DecidableEq, Repr

namespace FeedEventBus

/-- Give the event to every subscriber, and drop those that have no room; `event.rs:94`. -/
def publish (self : FeedEventBus) (event : FeedEvent) : Bool × FeedEventBus :=
  (self.queues.all (·.length < self.capacity),
    { self with
      queues := (self.queues.filter (·.length < self.capacity)).map fun queue => queue ++ [event] })

end FeedEventBus

/-! ### The feed state, `state.rs` -/

inductive FeedStatus where
  | disabled
  | connecting
  | connected
  | degraded
  deriving DecidableEq, Repr

/-- `state.rs:9`. -/
structure FeedSnapshot where
  state : FeedStatus
  source : Option FeedSource
  lastEventId : Option Bytes
  lastGeneration : Option UInt64
  lastError : Option String
  freshInstance : Bool
  deriving DecidableEq, Repr

namespace FeedSnapshot

/-- `state.rs:76`. -/
def setConnected (self : FeedSnapshot) (source : FeedSource) (eventId : Option Bytes)
    (generation : Option UInt64) : FeedSnapshot :=
  { self with
    state := .connected
    source := some source
    lastEventId := eventId.or self.lastEventId
    lastGeneration := generation.or self.lastGeneration
    lastError := none }

/-- `state.rs:95`. -/
def setDegraded (self : FeedSnapshot) (message : String) : FeedSnapshot :=
  { self with state := .degraded, lastError := some message }

/-- `state.rs:102`. -/
def markFreshInstance (self : FeedSnapshot) : FeedSnapshot := { self with freshInstance := true }

end FeedSnapshot

/-! ### The worker -/

/-- What the worker is configured and started with, `worker.rs:19` and `worker.rs:34`. -/
structure FeedWorkerConfig where
  cursorTemplate : Bool
  backpressureLimit : Nat
  catchUpInitial : Bool
  deriving DecidableEq, Repr

/-- The place in the loop. The position of a stream is the number of records the log had when
it was opened; `sent` counts the bytes read from it. -/
inductive Phase where
  | connecting
  | opened (position : Nat)
  | streaming (position sent : Nat)
  | reconnecting
  | stopped
  deriving DecidableEq, Repr

/-- Something the worker did to the cache or on the bus. -/
inductive Effect where
  | marked (path : Bytes) (oldPath : Option Bytes)
  | markedAll
  | published (event : FeedEvent)
  deriving DecidableEq, Repr

/-- The log of the server, the worker, its cache and its bus. For the statements only: when the
worker first had a stream, what it did at which length of the log, and one more than the last
record it has consumed. -/
structure Feed where
  log : List Line
  phase : Phase
  sinceEventId : Option Bytes
  snapshot : FeedSnapshot
  cache : Option NamespaceCache
  eventBus : Option FeedEventBus
  first : Option Nat
  effects : List (Nat × Effect)
  consumed : Nat

namespace Feed

/-- Keep what the worker did, and how long the log was. -/
def note (effect : Effect) (f : Feed) : Feed :=
  { f with effects := (f.log.length, effect) :: f.effects }

def setConnected (source : FeedSource) (eventId : Option Bytes) (generation : Option UInt64)
    (f : Feed) : Feed :=
  { f with snapshot := f.snapshot.setConnected source eventId generation }

def setDegraded (message : String) (f : Feed) : Feed :=
  { f with snapshot := f.snapshot.setDegraded message }

/-- `cache.mark_all_stale` behind `if let Some(cache) = &config.cache`. -/
def markAllStale (reason : StaleReason) (f : Feed) : Feed :=
  match f.cache with
  | none => f
  | some cache => { f with cache := some (cache.markAllStale reason) }.note .markedAll

/-- `cache.mark_namespace_change`, `worker.rs:423`. -/
def markNamespaceChange (record : NamespaceChange) (f : Feed) : Feed :=
  match f.cache with
  | none => f
  | some cache =>
    { f with cache := some (cache.markNamespaceChange record.path record.oldPath) }.note
      (.marked record.path record.oldPath)

/-- `worker.rs:453`. -/
def publishFeedEvent (event : FeedEvent) (f : Feed) : Feed :=
  match f.eventBus with
  | none => f
  | some bus =>
    let f := { f with eventBus := some (bus.publish event).2 }.note (.published event)
    if (bus.publish event).1 then f
    else
      (f.markAllStale (.explicit (utf8 "change feed event subscriber backpressure"))).setDegraded
        "change feed event subscriber backpressure"

/-- `worker.rs:307`. -/
def publishConnectionLoss (message : String) (f : Feed) : Feed :=
  (f.publishFeedEvent (.coarseInvalidation "change feed connection lost")).setDegraded
    s!"stream feed degraded: {message}"

/-- The loop of `worker.rs:422`. -/
def publishChanges (source : FeedSource) : List NamespaceChange → Feed → Feed
  | [], f => f
  | record :: rest, f =>
    let f := (f.markNamespaceChange record).publishFeedEvent (.change record source rest.isEmpty)
    publishChanges source rest
      (f.setConnected source (some record.eventId) (some record.generation))

/-- A batch with too many records, or the loop over them; `worker.rs:400`. -/
def processRecords (config : FeedWorkerConfig) (source : FeedSource)
    (cursorAdvancedTo : Option Bytes) (records : List NamespaceChange) (f : Feed) :
    Option Bytes × Feed :=
  if config.backpressureLimit ≠ 0 ∧ records.length > config.backpressureLimit then
    let f := f.markAllStale (.explicit (utf8 "change feed backpressure limit exceeded"))
    (records.getLast?.map (·.eventId),
      (f.publishFeedEvent
        (.coarseInvalidation "change feed backpressure limit exceeded")).setDegraded
          "change feed backpressure limit exceeded")
  else
    (cursorAdvancedTo.or (records.getLast?.map (·.eventId)), f.publishChanges source records)

/-- A batch from the stream, or from a catch-up with its cursor; `worker.rs:338`. -/
inductive FeedReadMode where
  | stream
  | catchUp (sinceEventId : Option Bytes)

/-- `worker.rs:352`. -/
def processFeedData (config : FeedWorkerConfig) (data : Bytes) (mode : FeedReadMode) (f : Feed) :
    Option Bytes × Feed :=
  match parseFeedRecords data with
  | none =>
    (none,
      ((f.markAllStale (.explicit (utf8 "change feed record malformed"))).publishFeedEvent
        (.coarseInvalidation "change feed record malformed")).setDegraded
          "change feed record malformed")
  | some records =>
    match mode with
    | .stream => f.processRecords config .stream none records
    | .catchUp sinceEventId =>
      let selected := selectFeedRecords records sinceEventId config.cursorTemplate
      if selected.cursorMissed then
        let f := (f.markAllStale .namespaceChange).publishFeedEvent
          (.coarseInvalidation "change feed cursor fell outside recent window")
        (selected.cursorAdvancedTo,
          { f with snapshot := f.snapshot.markFreshInstance }.setConnected .catchUp
            selected.cursorAdvancedTo none)
      else f.processRecords config .catchUp selected.cursorAdvancedTo selected.records

/-! ### The server's files -/

/-- The file a catch-up reads, `record.rs:58`: with a cursor and a template the file that the
cursor addresses, else the recent records. -/
inductive CatchUpFile where
  | after (eventId : Bytes)
  | recent
  deriving DecidableEq, Repr

def feedCatchUpPath (sinceEventId : Option Bytes) (cursorTemplate : Bool) : CatchUpFile :=
  match sinceEventId, cursorTemplate with
  | some eventId, true => .after eventId
  | _, _ => .recent

/-- The place of the record a cursor names. -/
def indexOf (f : Feed) (eventId : Bytes) : Option Nat :=
  f.log.findIdx? (·.change.eventId == eventId)

/-- Where in the log the file begins. The recent records reach back as far as the server
likes; it has no file for a cursor it does not know. -/
def catchUpStart (config : FeedWorkerConfig) (window : Nat) (f : Feed) : Option Nat :=
  match feedCatchUpPath f.sinceEventId config.cursorTemplate with
  | .after eventId => (f.indexOf eventId).map (· + 1)
  | .recent => some window

/-- The number of records that lie whole in the first bytes of a file. -/
def whole : List Line → Nat → Nat
  | [], _ => 0
  | line :: rest, count =>
    if line.bytes.length ≤ count then whole rest (count - line.bytes.length) + 1 else 0

/-- The records of the file that begins at `start` have been consumed as far as `count` bytes. -/
def consume (start count : Nat) (f : Feed) : Feed :=
  if whole (f.log.drop start) count = 0 then f
  else { f with consumed := max f.consumed (start + whole (f.log.drop start) count) }

/-! ### The loop -/

inductive Action where
  | append (line : Line)
  | subscribe
  | receive (index : Nat)
  | unsubscribe (index : Nat)
  | unavailable (message : String)
  | openFailed (message : String)
  | open
  | skip
  | catchUp (window count : Nat)
  | catchUpTimedOut
  | catchUpFailed (message : String)
  | read (count : Nat)
  | readTimedOut
  | readFailed (message : String)
  | reconnected
  | reconnectFailed (message : String)
  | stop

/-- Whether the worker catches up behind an opened stream, `worker.rs:155`. -/
def catchesUp (config : FeedWorkerConfig) (f : Feed) : Bool :=
  f.sinceEventId.isSome || config.catchUpInitial

/-- The most a read asks for, `worker.rs:224` and `worker.rs:249`. -/
def READ_COUNT : Nat := 64 * 1024

/-- `consume_catch_up`, `worker.rs:216`, from where its read has returned data. -/
def consumeCatchUp (config : FeedWorkerConfig) (start count : Nat) (f : Feed) : Feed :=
  let data := ((f.log.drop start).flatMap Line.bytes).take count
  let f := f.consume start count
  if data.isEmpty then f.setConnected .catchUp none none
  else
    let (eventId, f') := f.processFeedData config data (.catchUp f.sinceEventId)
    { f' with sinceEventId := eventId.or f'.sinceEventId }

/-- One turn of the loop of `consume_stream_until_error`, `worker.rs:247`, whose read has
returned data. The event id it returns is read again from the feed state, `worker.rs:201`. -/
def consumeStream (config : FeedWorkerConfig) (position sent count : Nat) (f : Feed) : Feed :=
  let data := (((f.log.drop position).flatMap Line.bytes).drop sent).take count
  let f := f.consume position (sent + data.length)
  if data.isEmpty then f.setConnected .stream none none
  else (f.processFeedData config data .stream).2

/-- What a step does, if it can be taken; `worker.rs:108`. -/
def next (config : FeedWorkerConfig) (f : Feed) (action : Action) : Option Feed :=
  match action, f.phase with
  | .append line, _ => some { f with log := f.log ++ [line] }
  | .subscribe, _ =>
    some { f with eventBus := f.eventBus.map fun bus => { bus with queues := bus.queues ++ [[]] } }
  | .receive index, _ =>
    some { f with
      eventBus := f.eventBus.map fun bus =>
        { bus with queues := bus.queues.modify index List.tail } }
  | .unsubscribe index, _ =>
    some { f with
      eventBus := f.eventBus.map fun bus => { bus with queues := bus.queues.eraseIdx index } }
  | .unavailable message, .connecting =>
    some (f.setDegraded s!"9P client session unavailable: {message}")
  | .openFailed message, .connecting =>
    some { f.publishConnectionLoss message with phase := .reconnecting }
  | .open, .connecting =>
    some { f with phase := .opened f.log.length, first := f.first.or (some f.log.length) }
  | .skip, .opened position =>
    if f.catchesUp config then none else some { f with phase := .streaming position 0 }
  | .catchUp window count, .opened position =>
    match f.catchUpStart config window with
    | none => none
    | some start =>
      if f.catchesUp config ∧ count ≤ READ_COUNT then
        some { f.consumeCatchUp config start count with phase := .streaming position 0 }
      else none
  | .catchUpTimedOut, .opened position =>
    if f.catchesUp config then some { f with phase := .streaming position 0 } else none
  | .catchUpFailed message, .opened _ =>
    if f.catchesUp config then
      some { f.publishConnectionLoss message with phase := .reconnecting }
    else none
  | .read count, .streaming position sent =>
    if count ≤ READ_COUNT then
      let data := (((f.log.drop position).flatMap Line.bytes).drop sent).take count
      some { f.consumeStream config position sent count with
        phase := .streaming position (sent + data.length) }
    else none
  | .readTimedOut, .streaming _ _ => some (f.setConnected .stream none none)
  | .readFailed message, .streaming _ _ =>
    some { f.publishConnectionLoss message with
      phase := .reconnecting, sinceEventId := f.snapshot.lastEventId.or f.sinceEventId }
  | .reconnected, .reconnecting => some { f with phase := .connecting }
  | .reconnectFailed message, .reconnecting =>
    some { f.setDegraded s!"stream feed reconnect degraded: {message}" with phase := .connecting }
  | .stop, _ => some { f with phase := .stopped }
  | _, _ => none

/-- A worker that has just been started, with a bus and any cursor, on any log. -/
structure Initial (f : Feed) : Prop where
  phase : f.phase = .connecting
  cursor : f.sinceEventId = f.snapshot.lastEventId
  bus : f.eventBus.isSome
  first : f.first = none
  effects : f.effects = []
  consumed : f.consumed = 0

def feeding (config : FeedWorkerConfig) : System Feed Action where
  initial := Initial
  step f action f' := f.next config action = some f'

end Feed

end R9P.Session
