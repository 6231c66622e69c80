import R9P.Base.Runs
import R9P.Client.Tags

/-!
# The multiplexed client

Library `Multiplex`. `crates/core/src/multiplex`: callers share a protocol client, a table of
waiters and a transport, each behind its own lock; one reader thread takes the responses off
the transport. A step is one critical section, or one move of the server. Which request a
response answers, which calls timed out and which were flushed is kept for the statements;
the code does not have it.
-/

namespace R9P.Multiplex
open Base Wire Server Client

/-! ### The waiters -/

/-- The senders of the calls that wait, and the error that ended the transport;
`reader.rs:19`. A sender is named by its call. -/
structure ResponseState where
  waiters : Std.ExtTreeMap Tag Nat
  terminalError : Option Error

namespace ResponseState

/-- `reader.rs:25`. The sender is in place before the duplicate is noticed. -/
def register (self : ResponseState) (tag : Tag) (sender : Nat) : Result Unit × ResponseState :=
  match self.terminalError with
  | some error => (.error error, self)
  | none =>
    let replaced := self.waiters[tag]?.isSome
    let self := { self with waiters := self.waiters.insert tag sender }
    if replaced then (.error (.fromStatic s!"duplicate waiter for tag {tag}"), self)
    else (.ok (), self)

/-- `reader.rs:35`. -/
def remove (self : ResponseState) (tag : Tag) : Option Nat × ResponseState :=
  (self.waiters[tag]?, { self with waiters := self.waiters.erase tag })

/-- `reader.rs:39`. -/
def terminate (self : ResponseState) (error : Error) : List Nat × ResponseState :=
  (self.waiters.toList.map Prod.snd, ⟨∅, some (self.terminalError.getD error)⟩)

end ResponseState

/-! ### Calls -/

/-- What a caller finds in its channel: the response to a request, or an error. -/
inductive Delivery where
  | response (request : Nat) (response : ClientResponse)
  | failure (error : Error)
  deriving DecidableEq

/-- Where a caller stands in `submit_message`, its wait and `flush_tag_with`. -/
inductive Phase where
  /-- A tag is taken, the frame not yet built. -/
  | allocated
  /-- The frame could not be built, and the tag was given back. -/
  | unencoded
  /-- The sender is in the table, the frame not yet written. -/
  | registered
  /-- The write failed. -/
  | broken (error : Error)
  /-- The call will give its tag back and return the error. -/
  | refused (error : Error)
  /-- It has. -/
  | failed (error : Error)
  /-- The frame is written. -/
  | waiting
  /-- The time is up without a response, the sender not yet taken back. -/
  | expired
  /-- The wait is over because a partner failed, the sender not yet taken back. -/
  | aborted
  /-- An `Rflush` has come, the sender of the flushed call not yet taken back. -/
  | concluding
  | returned
  deriving DecidableEq

/-- Where the request of a call is. -/
inductive Journey where
  | unsent
  | sent
  | answered (m : RMessage)
  | taken (m : RMessage)
  | dropped
  deriving DecidableEq

/-- A call, with the tag it flushes when it is one of `flush_tag_with`. -/
structure Call where
  tag : Tag
  message : TMessage
  oldtag : Option Tag
  phase : Phase
  journey : Journey
  inbox : List Delivery
  timedOut : Bool
  flushed : Bool
  deriving DecidableEq

namespace Call

def new (op : Op) (oldtag : Option Tag) : Call where
  tag := op.tag
  message := op.message
  oldtag := oldtag
  phase := .allocated
  journey := .unsent
  inbox := []
  timedOut := false
  flushed := false

def push (self : Call) (d : Delivery) : Call := { self with inbox := self.inbox ++ [d] }

/-- `Completion::Flush` for a call of `flush_tag_with`; `client.rs:348`. -/
def concludes (self : Call) : Delivery → Bool
  | .response _ (.completion tag .flush) => self.oldtag.isSome && tag == self.tag
  | _ => false

end Call

/-- `client_support.rs:13`, for the messages of the protocol client, which are plain text. -/
def protocolError (error : Error) : Error := ⟨utf8 "9P client state: " ++ error.message⟩

/-- The error that the reader skips; `reader.rs:69`. -/
def lateResponse : Error := .fromStatic "9P client state: unknown response tag"

theorem protocolError_eq_late {error : Error} :
    protocolError error = lateResponse ↔ error = unknownTag := by
  have hl : lateResponse = protocolError unknownTag := by decide
  rw [hl]
  unfold protocolError
  rw [Error.mk.injEq, List.append_cancel_left_eq]
  constructor
  · intro h
    exact congrArg Error.mk h
  · intro h
    rw [h]

/-- The reader thread between its critical sections; `reader.rs:47`. -/
inductive Reader where
  | reading
  | holding (request : Nat) (response : ClientResponse)
  | failing (error : Error)
  | stopped
  deriving DecidableEq

/-- The shared state, the callers and the reader. -/
structure Mux where
  protocol : Client
  responses : ResponseState
  calls : Nat → Option Call
  reader : Reader

namespace Mux

/-- Replace a call. -/
def set (s : Mux) (i : Nat) (call : Call) : Mux :=
  { s with calls := Function.update s.calls i (some call) }

/-- Move a call on. -/
def setPhase (s : Mux) (i : Nat) (phase : Phase) : Mux :=
  { s with calls := Function.update s.calls i <|
      (s.calls i).map fun call => { call with phase := phase } }

/-- Use senders, each once. -/
def send (s : Mux) (senders : List Nat) (d : Delivery) : Mux :=
  { s with calls := fun j => if j ∈ senders then (s.calls j).map (·.push d) else s.calls j }

/-- `ResponseState::remove` and the use of the sender; `reader.rs:77`, `calls.rs:102`. -/
def take (s : Mux) (tag : Tag) (d : Delivery) : Mux :=
  let (sender, responses) := s.responses.remove tag
  { s with responses := responses }.send sender.toList d

/-- `util.rs:10`. -/
def failAll (s : Mux) (error : Error) : Mux :=
  let (senders, responses) := s.responses.terminate error
  { s with responses := responses }.send senders (.failure error)

/-- A flush is aimed at every call with the tag. -/
def markFlushed (s : Mux) (oldtag : Tag) : Mux :=
  { s with calls := fun j => (s.calls j).map fun call =>
      if call.tag = oldtag then { call with flushed := true } else call }

end Mux

/-! ### Steps -/

/-- Moves of a call, of the server on its behalf or of its partner, that change nothing
shared. -/
inductive Turn (s : Mux) (i : Nat) : Call → Call → Prop
  /-- `client.rs:315`. -/
  | writes {call : Call} (phase : call.phase = .registered) :
      Turn s i call { call with phase := .waiting, journey := .sent }
  | breaks {call : Call} (phase : call.phase = .registered) (error : Error) :
      Turn s i call { call with phase := .broken error }
  /-- The server answers with the tag of the request. -/
  | answers {call : Call} {m : RMessage} (journey : call.journey = .sent)
      (tag : m.tag = call.tag) : Turn s i call { call with journey := .answered m }
  /-- The server leaves a flushed request unanswered. -/
  | drops {call : Call} (journey : call.journey = .sent) (flushed : call.flushed = true) :
      Turn s i call { call with journey := .dropped }
  /-- `calls.rs:79`. -/
  | expires {call : Call} (phase : call.phase = .waiting) (inbox : call.inbox = []) :
      Turn s i call { call with phase := .expired, timedOut := true }
  /-- The second of two pipelined calls was not submitted, which ends the first;
  `client.rs:909`. -/
  | aborts {call partner : Call} {j : Nat} {error : Error} (phase : call.phase = .waiting)
      (other : s.calls j = some partner) (failed : partner.phase = .failed error) :
      Turn s i call { call with phase := .aborted }
  /-- `calls.rs:78`. -/
  | returns {call : Call} {d : Delivery} {rest : List Delivery} (phase : call.phase = .waiting)
      (inbox : call.inbox = d :: rest) (other : call.concludes d = false) :
      Turn s i call { call with phase := .returned }
  /-- The sender is gone; `calls.rs:97`. -/
  | disconnects {call : Call} (phase : call.phase = .waiting) (inbox : call.inbox = [])
      (gone : s.responses.waiters[call.tag]? ≠ some i) :
      Turn s i call { call with phase := .returned }
  /-- `client.rs:348`. -/
  | concludes {call : Call} {d : Delivery} {rest : List Delivery} (phase : call.phase = .waiting)
      (inbox : call.inbox = d :: rest) (flush : call.concludes d = true) :
      Turn s i call { call with phase := .concluding }

/-- Calls that give their tag back. -/
inductive GivesUp (s : Mux) : Call → Phase → Prop
  /-- `client.rs:303`. -/
  | overflows {call : Call} {error : Error} (phase : call.phase = .allocated)
      (frame : encodeTMessageChecked call.message s.protocol.msize = .error error) :
      GivesUp s call .unencoded
  /-- The first of two pipelined calls was not submitted; `client.rs:901`. -/
  | withdraws {call partner : Call} {j : Nat} (phase : call.phase = .allocated)
      (other : s.calls j = some partner)
      (failed : partner.phase = .unencoded ∨ ∃ error, partner.phase = .failed error) :
      GivesUp s call .unencoded
  /-- `client.rs:310`, `client.rs:322`. -/
  | abandons {call : Call} {error : Error} (phase : call.phase = .refused error) :
      GivesUp s call (.failed error)

/-- Calls that take a sender back: their own when their wait is over, that of the call they
flushed. -/
inductive Cancels : Call → Tag → Error → Prop
  /-- `calls.rs:84`; the text gives the time. -/
  | expired {call : Call} (phase : call.phase = .expired) (error : Error) :
      Cancels call call.tag error
  /-- `client.rs:910`. -/
  | aborted {call : Call} (phase : call.phase = .aborted) :
      Cancels call call.tag (.fromStatic "pipelined 9P read could not be submitted")
  /-- `client.rs:350`. -/
  | flushed {call : Call} {oldtag : Tag} (phase : call.phase = .concluding)
      (target : call.oldtag = some oldtag) :
      Cancels call oldtag (.fromStatic "9P request flushed")

/-- Whether a step hands out a tag. -/
inductive Action where
  | allocate
  | advance
  deriving DecidableEq

/-- The critical sections. -/
inductive Step : Mux → Action → Mux → Prop
  /-- `submit` up to its first unlock; `client.rs:283`. -/
  | submits {s : Mux} {protocol : Client} {op : Op} (i : Nat) (r : Request)
      (fresh : s.calls i = none) (built : r.build.exec s.protocol = (.ok op, protocol)) :
      Step s .allocate ({ s with protocol := protocol }.set i (.new op none))
  | unbuilt {s : Mux} {protocol : Client} {e : Error} (r : Request)
      (built : r.build.exec s.protocol = (.error e, protocol)) :
      Step s .advance { s with protocol := protocol }
  /-- `flush_tag_with` up to its first unlock; `client.rs:339`. -/
  | flushes {s : Mux} {protocol : Client} {op : Op} (i : Nat) (oldtag : Tag)
      (fresh : s.calls i = none)
      (built : (Client.flush oldtag).exec s.protocol = (.ok op, protocol)) :
      Step s .allocate (({ s with protocol := protocol }.set i (.new op (some oldtag))).markFlushed
        oldtag)
  | unflushed {s : Mux} {protocol : Client} {e : Error} (oldtag : Tag)
      (built : (Client.flush oldtag).exec s.protocol = (.error e, protocol)) :
      Step s .advance { s with protocol := protocol }
  | turns {s : Mux} {i : Nat} {call call' : Call} (caller : s.calls i = some call)
      (turn : Turn s i call call') : Step s .advance (s.set i call')
  | givesUp {s : Mux} {i : Nat} {call : Call} {phase : Phase} (caller : s.calls i = some call)
      (gives : GivesUp s call phase) :
      Step s .advance ({ s with protocol := s.protocol.abandon call.tag }.set i
        { call with phase := phase })
  /-- `client.rs:308`. -/
  | registers {s : Mux} {i : Nat} {call : Call} {responses : ResponseState}
      (caller : s.calls i = some call) (phase : call.phase = .allocated)
      (registered : s.responses.register call.tag i = (.ok (), responses)) :
      Step s .advance ({ s with responses := responses }.set i { call with phase := .registered })
  | unregistered {s : Mux} {i : Nat} {call : Call} {responses : ResponseState} {error : Error}
      (caller : s.calls i = some call) (phase : call.phase = .allocated)
      (registered : s.responses.register call.tag i = (.error error, responses)) :
      Step s .advance ({ s with responses := responses }.set i
        { call with phase := .refused error })
  | cancels {s : Mux} {i : Nat} {call : Call} {tag : Tag} {error : Error}
      (caller : s.calls i = some call) (cancels : Cancels call tag error) :
      Step s .advance ((s.setPhase i .returned).take tag (.failure error))
  /-- `client.rs:321`. -/
  | fails {s : Mux} {i : Nat} {call : Call} {error : Error} (caller : s.calls i = some call)
      (phase : call.phase = .broken error) :
      Step s .advance ((s.failAll error).setPhase i (.refused error))
  /-- `shutdown`; `client.rs:264`. -/
  | shutsDown {s : Mux} :
      Step s .advance (s.failAll (.fromStatic "9P transport closed by client"))
  /-- `protocol.receive` in the reader; `reader.rs:65`. -/
  | receives {s : Mux} {i : Nat} {call : Call} {m : RMessage} {protocol : Client}
      {response : ClientResponse} (reader : s.reader = .reading) (caller : s.calls i = some call)
      (journey : call.journey = .answered m)
      (received : (receive m).exec s.protocol = (.ok response, protocol)) :
      Step s .advance ({ s with protocol := protocol, reader := .holding i response }.set i
        { call with journey := .taken m })
  /-- A late response is skipped; `reader.rs:69`. -/
  | skips {s : Mux} {i : Nat} {call : Call} {m : RMessage} {protocol : Client} {error : Error}
      (reader : s.reader = .reading) (caller : s.calls i = some call)
      (journey : call.journey = .answered m)
      (received : (receive m).exec s.protocol = (.error error, protocol))
      (late : protocolError error = lateResponse) :
      Step s .advance ({ s with protocol := protocol }.set i { call with journey := .taken m })
  | rejects {s : Mux} {i : Nat} {call : Call} {m : RMessage} {protocol : Client} {error : Error}
      (reader : s.reader = .reading) (caller : s.calls i = some call)
      (journey : call.journey = .answered m)
      (received : (receive m).exec s.protocol = (.error error, protocol))
      (known : protocolError error ≠ lateResponse) :
      Step s .advance ({ s with protocol := protocol, reader := .failing (protocolError error) }.set
        i
        { call with journey := .taken m })
  /-- The transport ends, or what it carries is no response; `reader.rs:60`. -/
  | loses {s : Mux} (reader : s.reader = .reading) (error : Error) :
      Step s .advance { s with reader := .failing error }
  | stops {s : Mux} {error : Error} (reader : s.reader = .failing error) :
      Step s .advance ({ s with reader := .stopped }.failAll error)
  /-- `responses.remove` and the send in the reader; `reader.rs:76`. -/
  | handsOver {s : Mux} {i : Nat} {response : ClientResponse}
      (reader : s.reader = .holding i response) :
      Step s .advance ({ s with reader := .reading }.take response.tag (.response i response))

/-- A client as `connect` leaves it: nothing is pending, nobody waits. -/
def Connected (s : Mux) : Prop :=
  s.protocol.pending.live = ∅ ∧ s.protocol.flushTargets = ∅ ∧ s.responses = ⟨∅, none⟩ ∧
    s.calls = (fun _ => none) ∧ s.reader = .reading

/-- A multiplexed client from its connection on, with any number of callers. -/
def multiplexed : System Mux Action := ⟨Connected, Step⟩

end R9P.Multiplex
