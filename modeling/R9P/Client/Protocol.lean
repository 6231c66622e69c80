import R9P.Server.Session

/-!
# The protocol client

Library `Client`. `crates/core/src/client.rs`: tags and fids for new requests, and what a
response does to the request it answers. The client knows a request by its tag alone. Tags
are handed out round robin; a `Tflush` remembers the tag it names until its reply.
-/

namespace R9P
open Base Wire Server

namespace Client

/-- What a successful response says; `client.rs:12`. -/
inductive Completion where
  | version (msize : UInt32) (version : Bytes)
  | attach (qid : Qid)
  | auth (aqid : Qid)
  | flush
  | walk (qids : List Qid)
  | open (qid : Qid) (iounit : UInt32)
  | create (qid : Qid) (iounit : UInt32)
  | read (data : Bytes)
  | write (count : UInt32)
  | clunk
  | remove
  | stat (stat : Stat)
  | wstat
  | renameAt
  | referrals (referrals : List NamespaceReferral)
  deriving DecidableEq, Repr

/-- A response to a request of this client; `client.rs:31`. -/
inductive ClientResponse where
  | completion (tag : Tag) (completion : Completion)
  | error (tag : Tag) (ename : Bytes)
  deriving DecidableEq, Repr

/-- The tag of a response; `util.rs:20`. -/
def ClientResponse.tag : ClientResponse → Tag
  | completion tag _ | error tag _ => tag

/-- A request ready to be sent; `client.rs:457`. -/
structure Op where
  tag : Tag
  fid : Option Fid
  message : TMessage
  deriving DecidableEq, Repr

end Client

/-- The state of the client; `client.rs:37`. -/
structure Client where
  msize : UInt32
  version : Bytes
  requestedMsize : Option UInt32
  nextTag : Tag
  nextFid : Fid
  pending : RequestTable
  flushTargets : Std.ExtTreeMap Tag Tag
  deriving DecidableEq

namespace Client

/-- `client.rs:54`. -/
def new : Client where
  msize := DEFAULT_MSIZE
  version := utf8 "9P2000"
  requestedMsize := none
  nextTag := 0
  nextFid := 1
  pending := .new
  flushTargets := ∅

/-! ### Requests -/

/-- The loop of `alloc_tag` (`client.rs:413`): the next tag that is not in use. -/
def allocLoop : Nat → Client → Result Tag × Client
  | 0, self => (.error (.fromStatic EDUPTAG), self)
  | n + 1, self =>
    let tag := self.nextTag
    let self := { self with nextTag := self.nextTag + 1 }
    if tag = NOTAG then allocLoop n self
    else if !self.pending.isLive tag then
      match self.pending.begin tag with
      | .ok (_, pending) => (.ok tag, { self with pending := pending })
      | .error e => (.error e, self)
    else allocLoop n self

/-- `client.rs:413`. -/
def allocTag : Checked Client Error Tag := .ofExec (allocLoop 65535)

/-- `client.rs:428`. -/
def allocFid : Checked Client Error Fid := .ofExec fun self =>
  let next := self.nextFid + 1
  (.ok self.nextFid, { self with nextFid := if next = NOFID then 1 else next })

/-- The body that the request constructors below share. -/
def request (fid : Option Fid) (build : Tag → TMessage) : Checked Client Error Op := do
  let tag ← allocTag
  pure ⟨tag, fid, build tag⟩

/-- `client.rs:78`. -/
def versionRequestFor (self : Client) (msize : UInt32) (variant : Variant) : TMessage × Client :=
  (.version NOTAG msize variant.wireName,
    { self with
      pending := self.pending.reset
      flushTargets := ∅
      version := utf8 "unknown"
      requestedMsize := some msize })

/-- `client.rs:90`. -/
def attach (uname aname : Bytes) : Checked Client Error Op := do
  let tag ← allocTag
  let fid ← allocFid
  pure ⟨tag, some fid, .attach tag fid NOFID uname aname⟩

/-- `client.rs:106`. -/
def walk (fid : Fid) (wnames : List Bytes) : Checked Client Error Op := do
  let tag ← allocTag
  let newfid ← allocFid
  pure ⟨tag, some newfid, .walk tag fid newfid wnames⟩

/-- `client.rs:122`. -/
def «open» (fid : Fid) (mode : UInt8) : Checked Client Error Op :=
  request (some fid) fun tag => .open tag fid mode

/-- `client.rs:131`. -/
def read (fid : Fid) (offset : UInt64) (count : UInt32) : Checked Client Error Op :=
  request (some fid) fun tag => .read tag fid offset count

/-- `client.rs:145`. -/
def write (fid : Fid) (offset : UInt64) (data : Bytes) : Checked Client Error Op :=
  request (some fid) fun tag => .write tag fid offset data

/-- `client.rs:159`. -/
def create (fid : Fid) (name : Bytes) (perm : UInt32) (mode : UInt8) : Checked Client Error Op :=
  request (some fid) fun tag => .create tag fid name perm mode

/-- `client.rs:180`. -/
def clunk (fid : Fid) : Checked Client Error Op := request (some fid) fun tag => .clunk tag fid

/-- `client.rs:189`. -/
def remove (fid : Fid) : Checked Client Error Op := request (some fid) fun tag => .remove tag fid

/-- `client.rs:198`. -/
def stat (fid : Fid) : Checked Client Error Op := request (some fid) fun tag => .stat tag fid

/-- `client.rs:207`. -/
def wstat (fid : Fid) (stat : Stat) : Checked Client Error Op :=
  request (some fid) fun tag => .wstat tag fid stat

/-- `client.rs:216`. -/
def renameAt (olddirfid : Fid) (oldname : Bytes) (newdirfid : Fid) (newname : Bytes) :
    Checked Client Error Op :=
  request (some olddirfid) fun tag => .renameAt tag olddirfid oldname newdirfid newname

/-- `client.rs:237`. -/
def referrals (fid : Fid) : Checked Client Error Op :=
  request (some fid) fun tag => .referrals tag fid

/-- `client.rs:246`. -/
def flush (oldtag : Tag) : Checked Client Error Op := do
  .refuseIf (oldtag = NOTAG) (.fromStatic EBADTAG)
  let tag ← allocTag
  .update fun self => { self with flushTargets := self.flushTargets.insert tag oldtag }
  pure ⟨tag, none, .flush tag oldtag⟩

/-- Forget a request, whatever holds its tag; `RequestTable::flush` with its result dropped. -/
def dropPending (tag : Tag) (self : Client) : Client :=
  match self.pending.flush tag with
  | .ok (_, pending) => { self with pending := pending }
  | .error _ => self

/-- Drop a request that was not sent; `client.rs:259`. -/
def abandon (self : Client) (tag : Tag) : Client :=
  if tag = NOTAG then { self with requestedMsize := none }
  else
    let self := self.dropPending tag
    { self with flushTargets := self.flushTargets.erase tag }

/-! ### Responses -/

/-- `client.rs:437`. -/
def finish (tag : Tag) : Checked Client Error Unit := do
  let outcome ← .ofExec fun self =>
    match self.pending.flush tag with
    | .ok (outcome, pending) => (.ok outcome, { self with pending := pending })
    | .error e => (.error e, self)
  match outcome with
  | .cancelled _ => pure ()
  | .unknown => throw (.fromStatic "unknown response tag")

/-- `client.rs:446`. -/
def validateIounit (msize iounit : UInt32) : Result Unit :=
  if iounit ≠ 0 ∧ iounit > maxIounit msize then
    .error (.fromStatic s!"iounit {iounit} exceeds negotiated msize {msize}")
  else .ok ()

/-- The body that the plain arms of `receive` share. -/
def completeWith (tag : Tag) (completion : Completion) : Checked Client Error ClientResponse := do
  finish tag
  pure (.completion tag completion)

/-- The arms of an opened file, with its I/O unit checked once the tag is free. -/
def completeOpened (tag : Tag) (iounit : UInt32) (completion : Completion) :
    Checked Client Error ClientResponse := do
  finish tag
  .ask fun self => validateIounit self.msize iounit
  pure (.completion tag completion)

/-- `Option::take` on the requested message size. -/
def takeRequestedMsize : Checked Client Error (Option UInt32) :=
  .ofExec fun self => (.ok self.requestedMsize, { self with requestedMsize := none })

/-- Take a response; `client.rs:268`. -/
def receive : RMessage → Checked Client Error ClientResponse
  | .version tag msize version => do
    .refuseIf (tag ≠ NOTAG) (.fromStatic "Rversion did not use NOTAG")
    let requested ← takeRequestedMsize
    let requestedMsize ← .ask fun _ => okOr requested "unsolicited Rversion"
    .refuseIf (msize < MIN_MSIZE || msize > requestedMsize)
      (.fromStatic s!"invalid negotiated msize {msize} for request {requestedMsize}")
    .update fun self => { self with
      msize := msize
      version := version
      pending := self.pending.reset
      flushTargets := ∅ }
    pure (.completion tag (.version msize version))
  | .error tag ename => do
    if tag = NOTAG then
      let requested ← takeRequestedMsize
      let _ ← .ask fun _ => okOr requested "unknown response tag"
    else finish tag
    .update fun self => { self with flushTargets := self.flushTargets.erase tag }
    pure (.error tag ename)
  | .attach tag qid => completeWith tag (.attach qid)
  | .auth tag aqid => completeWith tag (.auth aqid)
  | .flush tag => do
    finish tag
    .update fun self =>
      match self.flushTargets[tag]? with
      | some oldtag =>
        dropPending oldtag { self with flushTargets := self.flushTargets.erase tag }
      | none => self
    pure (.completion tag .flush)
  | .walk tag qids => completeWith tag (.walk qids)
  | .open tag qid iounit => completeOpened tag iounit (.open qid iounit)
  | .create tag qid iounit => completeOpened tag iounit (.create qid iounit)
  | .read tag data => completeWith tag (.read data)
  | .write tag count => completeWith tag (.write count)
  | .clunk tag => completeWith tag .clunk
  | .remove tag => completeWith tag .remove
  | .stat tag stat => completeWith tag (.stat stat)
  | .wstat tag => completeWith tag .wstat
  | .renameAt tag => completeWith tag .renameAt
  | .referrals tag referrals => completeWith tag (.referrals referrals)

end Client

end R9P
