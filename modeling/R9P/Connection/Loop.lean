import R9P.Server.Replies
import R9P.Wire.Codec

/-!
# A served connection

Library `Connection`. The threads of `server/connection.rs`: the reader loop, and one worker
for each asynchronous request. A step is one section under a lock of the writer, of the
session, of the cancellation map or of the worker count. A section that takes a second lock
inside is one step too, as nobody else uses two of them the other way round. What the client
sends, what the handler returns and whether a write succeeds is up to the step. No handler
code runs under a lock, so no lock is ever poisoned.
-/

namespace R9P.Connection
open Base Wire Server

/-! ### Requests under way -/

/-- Where the thread that performs a request stands. -/
inductive Stage where
  /-- Dispatched, the handler is not called yet. -/
  | admitted
  | performing
  /-- The handler is done; `complete_and_write` waits for the writer. -/
  | returned (result : Result ServerCompletion)
  | locked (result : Result ServerCompletion)
  /-- The session has been asked; the writer is still held. -/
  | completed (reply : Option RMessage) (msize : UInt32)
  | finished (reply : Option RMessage) (outcome : Result Unit)
  | panicked
  deriving DecidableEq

namespace Stage

/-- The session has not been asked yet. -/
def early : Stage → Bool
  | admitted | performing | returned _ | locked _ => true
  | completed .. | finished .. | panicked => false

/-- The thread has nothing more to do for the request. -/
def ended : Stage → Bool
  | finished .. | panicked => true
  | _ => false

/-- The thread has the writer. -/
def holds : Stage → Bool
  | locked _ | completed .. => true
  | _ => false

end Stage

/-- A dispatched request. The last field is bookkeeping: a flush or a version request took
the tag from it before the session was asked for its reply. -/
structure Job where
  request : ServerRequest
  /-- A worker thread performs it, not the reader. -/
  worker : Bool
  stage : Stage
  /-- The flag the handler may look at. -/
  cancel : Bool
  /-- The worker has removed its entry of the cancellation map. -/
  cleared : Bool
  withdrawn : Bool
  deriving DecidableEq

/-- An entry of the cancellation map; `connection.rs:150`. -/
structure PendingCancel where
  fid : Option Fid
  /-- The job whose flag it shares. -/
  cancel : Nat
  deriving DecidableEq

/-- `connection.rs:155`. -/
abbrev CancelMap := List (RequestKey × PendingCancel)

namespace CancelMap

def remove (pending : CancelMap) (key : RequestKey) : CancelMap :=
  pending.filter (·.1 ≠ key)

def insert (pending : CancelMap) (key : RequestKey) (entry : PendingCancel) : CancelMap :=
  (key, entry) :: pending.remove key

end CancelMap

/-- Raise the flags of some entries. -/
def raise (jobs : List Job) (entries : CancelMap) : List Job :=
  jobs.mapIdx fun d job =>
    { job with cancel := job.cancel || entries.any fun entry => entry.2.cancel = d }

/-! ### The reader -/

/-- What a frame on the stream answers. A flush or version request is marked with the number
of requests dispatched before it was admitted. -/
inductive Origin where
  | job (number : Nat)
  | flush (oldtag : Tag) (before : Nat)
  | version (before : Nat)
  | other
  deriving DecidableEq, Repr

/-- A reply on the stream. -/
structure Frame where
  origin : Origin
  message : RMessage
  deriving DecidableEq

/-- What follows on `reset_connection`. -/
inductive Next where
  | proceed (message : TMessage)
  | close (result : Result Unit)
  deriving DecidableEq

/-- Where the reader thread stands. -/
inductive Reader where
  | reading
  /-- `reset_connection` before its first section. -/
  | resetting (next : Next)
  | draining (next : Next)
  | admitting (message : TMessage)
  /-- `write_reply` before it has the writer, with the writer, and with the message size. -/
  | replying (origin : Origin) (reply : RMessage)
  | replyLocked (origin : Origin) (reply : RMessage)
  | replySized (origin : Origin) (reply : RMessage) (msize : UInt32)
  /-- `dispatch_async` before it counts the worker, and before it spawns it. -/
  | dispatching (number : Nat)
  | spawning (number : Nat)
  /-- The worker could not be spawned: before its entry is removed, and before its count is. -/
  | unspawned (number : Nat) (text : Bytes)
  | unregistered (number : Nat) (text : Bytes)
  /-- The reader performs or completes the request itself. -/
  | serving (number : Nat)
  | closed (result : Result Unit)
  deriving DecidableEq

namespace Reader

/-- The reader has the writer. -/
def holds : Reader → Bool
  | replyLocked .. | replySized .. => true
  | _ => false

/-- The request that the reader is busy with. -/
def attends : Reader → Option Nat
  | dispatching number | spawning number | unspawned number _ | unregistered number _
  | serving number => some number
  | _ => none

/-- `serve_loop` has returned. -/
def ended : Reader → Option (Result Unit)
  | resetting (.close result) | draining (.close result) | closed result => some result
  | _ => none

/-- `serve_loop` goes on, or returns with the error. -/
def resume : Result Unit → Reader
  | .ok () => reading
  | .error e => resetting (.close (.error e))

end Reader

/-- Behind `wait_until_idle`, with what the handler's own reset returned;
`connection.rs:80` and `connection.rs:120`. -/
def Next.resume : Next → Result Unit → Reader
  | proceed message, .ok () => .admitting message
  | proceed _, .error e => .resetting (.close (.error e))
  | close (.error e), _ => .closed (.error e)
  | close (.ok ()), cleanup => .closed cleanup

/-! ### The connection -/

/-- Who has the writer. -/
inductive Holder where
  | reader
  | job (number : Nat)
  deriving DecidableEq, Repr

/-- Everything the threads share, with the number of generations used and all replies
written so far, newest first. -/
structure Conn where
  session : Session
  generations : Nat
  reader : Reader
  jobs : List Job
  writer : Option Holder
  pending : CancelMap
  active : List Nat
  written : List Frame
  deriving DecidableEq

namespace Conn

/-- `connection.rs:63`. -/
def new (config : ServerConfig) : Conn where
  session := .new config
  generations := 0
  reader := .reading
  jobs := []
  writer := none
  pending := []
  active := []
  written := []

/-- Change one job. -/
def onJob (c : Conn) (d : Nat) (f : Job → Job) : Conn := { c with jobs := c.jobs.modify d f }

def setStage (c : Conn) (d : Nat) (stage : Stage) : Conn :=
  c.onJob d fun job => { job with stage := stage }

/-- The jobs that lose their tag without a reply. -/
def withdraw (jobs : List Job) (p : Job → Bool) : List Job :=
  jobs.map fun job => { job with withdrawn := job.withdrawn || job.stage.early && p job }

/-- `cancel_key`, `connection.rs:355`. -/
def cancelKey (c : Conn) (key : RequestKey) : Conn :=
  { c with
    pending := c.pending.remove key
    jobs := raise c.jobs (c.pending.filter (·.1 = key)) }

/-- `cancel_fid`, `connection.rs:368`. -/
def cancelFid (c : Conn) (fid : Fid) : Conn :=
  { c with
    pending := c.pending.filter (·.2.fid ≠ some fid)
    jobs := raise c.jobs (c.pending.filter (·.2.fid = some fid)) }

/-- The section of `reset_connection` under the session lock; `connection.rs:410`. -/
def resetSection (c : Conn) (next : Next) : Conn :=
  { c with
    session := c.session.withRequests c.session.requests.reset
    generations := c.generations + 1
    jobs := withdraw (raise c.jobs c.pending) fun _ => next matches .proceed _
    pending := []
    reader := .draining next }

/-- What the reader does with an event; `connection.rs:128`. -/
def onEvent (c : Conn) (message : TMessage) (event : ServerEvent) (isAsync : Bool) : Conn :=
  match message, event with
  | .version .., .reply reply =>
    { c with reader := .replying (.version c.jobs.length) reply }
  | .flush _ oldtag, .flush reply (.cancelled key) =>
    { c.cancelKey key with
      jobs := withdraw (c.cancelKey key).jobs (·.request.tag = oldtag)
      reader := .replying (.flush oldtag c.jobs.length) reply }
  | .flush _ oldtag, .flush reply .unknown =>
    { c with
      jobs := withdraw c.jobs (·.request.tag = oldtag)
      reader := .replying (.flush oldtag c.jobs.length) reply }
  | _, .dispatch request =>
    let c' := match request.kind with
      | .clunk fid _ => c.cancelFid fid
      | _ => c
    { c' with
      jobs := c'.jobs ++ [⟨request, false, if isAsync then .admitted else .performing, false,
        false, false⟩]
      reader := if isAsync then .dispatching c.jobs.length else .serving c.jobs.length }
  | _, .reply reply | _, .flush reply _ => { c with reader := .replying .other reply }

/-- The section of `admit` under the session lock; `connection.rs:219`. -/
def admitSection (c : Conn) (message : TMessage) (isAsync : Bool) : Conn :=
  onEvent
    { c with
      session := (admitMessage c.session message).2
      generations := c.generations + (c.session.usesGeneration message).toNat }
    message (admitMessage c.session message).1 isAsync

/-- Write a frame unless it is too large; `codec.rs:106`. -/
def writeRMessageChecked (msize : UInt32) (reply : RMessage) (io : Result Unit) : Result Unit :=
  encodeRMessageChecked reply msize >>= fun _ => io

/-- The last section of `write_reply`; `connection.rs:352`. -/
def replySection (c : Conn) (origin : Origin) (reply : RMessage) (msize : UInt32)
    (io : Result Unit) : Conn :=
  let outcome := writeRMessageChecked msize reply io
  { c with
    writer := none
    written := if outcome = .ok () then ⟨origin, reply⟩ :: c.written else c.written
    reader := .resume outcome }

/-- The section of `dispatch_async` under the lock of the cancellation map;
`connection.rs:259`. -/
def registerSection (c : Conn) (limit number : Nat) (key : RequestKey) (fid : Option Fid) : Conn :=
  if c.active.length ≥ limit then
    { c.setStage number
        (.returned (.error (.fromStatic "too many asynchronous 9P requests"))) with
      reader := .serving number }
  else
    { c with
      pending := c.pending.insert key ⟨fid, number⟩
      active := number :: c.active
      reader := .spawning number }

/-- The reader gives up a worker that it could not spawn; `connection.rs:302`. -/
def unspawnSection (c : Conn) (number : Nat) (text : Bytes) : Conn :=
  { c.setStage number (.returned (.error ⟨utf8 "spawn 9P request worker: " ++ text⟩)) with
    active := c.active.erase number
    reader := .serving number }

/-- The section of `complete_and_write` under both locks; `connection.rs:325`. -/
def completeSection (c : Conn) (d : Nat) (request : ServerRequest)
    (result : Result ServerCompletion) : Conn :=
  { c.setStage d (.completed (complete c.session request result).1
      (complete c.session request result).2.msize) with
    session := (complete c.session request result).2 }

/-- What `complete_and_write` does with the reply of the session. -/
def writeOutcome (reply : Option RMessage) (msize : UInt32) (io : Result Unit) : Result Unit :=
  match reply with
  | some reply => writeRMessageChecked msize reply io
  | none => .ok ()

/-- The last section of `complete_and_write`; `connection.rs:332`. The reader returns an error
of its own requests, a worker drops it. -/
def writeSection (c : Conn) (d : Nat) (worker : Bool) (reply : Option RMessage) (msize : UInt32)
    (io : Result Unit) : Conn :=
  let outcome := writeOutcome reply msize io
  { c.setStage d (.finished reply outcome) with
    writer := none
    written := if outcome = .ok () then (reply.map (⟨.job d, ·⟩)).toList ++ c.written
      else c.written
    reader := if worker then c.reader else .resume outcome }

/-! ### Steps -/

/-- A step, with what comes from outside. -/
inductive Action where
  | reads (message : TMessage)
  | hangsUp (result : Result Unit)
  | resets
  | drains (handlerReset : Result Unit)
  | admits (isAsync : Bool)
  | takesWriter
  | sizes
  | sends (io : Result Unit)
  | registers (fid : Option Fid)
  | spawns
  | failsToSpawn (text : Bytes)
  | unregisters
  | unspawns
  | returns (number : Nat) (result : Result ServerCompletion)
  | panics (number : Nat)
  | locks (number : Nat)
  | completes (number : Nat)
  | writes (number : Nat) (io : Result Unit)
  | clears (number : Nat)
  | leaves (number : Nat)

/-- The steps of the threads. -/
inductive Step (limit : Nat) (c : Conn) : Action → Conn → Prop
  | reads (message : TMessage) (at_ : c.reader = .reading) :
      Step limit c (.reads message)
        { c with reader := if message.messageType = TVERSION then .resetting (.proceed message)
          else .admitting message }
  | hangsUp (result : Result Unit) (at_ : c.reader = .reading) :
      Step limit c (.hangsUp result) { c with reader := .resetting (.close result) }
  | resets {next : Next} (at_ : c.reader = .resetting next) :
      Step limit c .resets (c.resetSection next)
  | drains {next : Next} (handlerReset : Result Unit) (at_ : c.reader = .draining next)
      (idle : c.active = []) :
      Step limit c (.drains handlerReset) { c with reader := next.resume handlerReset }
  | admits {message : TMessage} (isAsync : Bool) (at_ : c.reader = .admitting message) :
      Step limit c (.admits isAsync) (c.admitSection message isAsync)
  | takesWriter {origin : Origin} {reply : RMessage} (at_ : c.reader = .replying origin reply)
      (free : c.writer = none) :
      Step limit c .takesWriter
        { c with reader := .replyLocked origin reply, writer := some .reader }
  | sizes {origin : Origin} {reply : RMessage} (at_ : c.reader = .replyLocked origin reply) :
      Step limit c .sizes { c with reader := .replySized origin reply c.session.msize }
  | sends {origin : Origin} {reply : RMessage} {msize : UInt32} (io : Result Unit)
      (at_ : c.reader = .replySized origin reply msize) :
      Step limit c (.sends io) (c.replySection origin reply msize io)
  | registers {number : Nat} {job : Job} (fid : Option Fid)
      (at_ : c.reader = .dispatching number) (dispatched : c.jobs[number]? = some job) :
      Step limit c (.registers fid) (c.registerSection limit number job.request.key fid)
  | spawns {number : Nat} (at_ : c.reader = .spawning number) :
      Step limit c .spawns
        { c.onJob number (fun job => { job with worker := true, stage := .performing }) with
          reader := .reading }
  | failsToSpawn {number : Nat} (text : Bytes) (at_ : c.reader = .spawning number) :
      Step limit c (.failsToSpawn text) { c with reader := .unspawned number text }
  | unregisters {number : Nat} {text : Bytes} {job : Job}
      (at_ : c.reader = .unspawned number text) (dispatched : c.jobs[number]? = some job) :
      Step limit c .unregisters
        { c with
          pending := c.pending.remove job.request.key
          reader := .unregistered number text }
  | unspawns {number : Nat} {text : Bytes} (at_ : c.reader = .unregistered number text) :
      Step limit c .unspawns (c.unspawnSection number text)
  | returns {job : Job} (number : Nat) (result : Result ServerCompletion)
      (dispatched : c.jobs[number]? = some job) (stage : job.stage = .performing) :
      Step limit c (.returns number result) (c.setStage number (.returned result))
  | panics {job : Job} (number : Nat) (dispatched : c.jobs[number]? = some job)
      (stage : job.stage = .performing) (worker : job.worker = true) :
      Step limit c (.panics number) (c.setStage number .panicked)
  | locks {job : Job} {result : Result ServerCompletion} (number : Nat)
      (dispatched : c.jobs[number]? = some job) (stage : job.stage = .returned result)
      (free : c.writer = none) :
      Step limit c (.locks number)
        { c.setStage number (.locked result) with writer := some (.job number) }
  | completes {job : Job} {result : Result ServerCompletion} (number : Nat)
      (dispatched : c.jobs[number]? = some job) (stage : job.stage = .locked result) :
      Step limit c (.completes number) (c.completeSection number job.request result)
  | writes {job : Job} {reply : Option RMessage} {msize : UInt32} (number : Nat)
      (io : Result Unit) (dispatched : c.jobs[number]? = some job)
      (stage : job.stage = .completed reply msize) :
      Step limit c (.writes number io) (c.writeSection number job.worker reply msize io)
  | clears {job : Job} (number : Nat) (dispatched : c.jobs[number]? = some job)
      (worker : job.worker = true) (ended : job.stage.ended = true) (cleared : job.cleared = false)
        :
      Step limit c (.clears number)
        { c.onJob number (fun job => { job with cleared := true }) with
          pending := c.pending.remove job.request.key }
  | leaves {job : Job} (number : Nat) (dispatched : c.jobs[number]? = some job)
      (cleared : job.cleared = true) :
      Step limit c (.leaves number) { c with active := c.active.erase number }

end Conn

/-- The connection as a transition system; `serve_connection` of `connection.rs:63`. -/
def connection (config : ServerConfig) : System Conn Conn.Action where
  initial c := c = .new config
  step := Conn.Step config.maxAsyncRequests

end R9P.Connection
