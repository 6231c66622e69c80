import R9P.Base.TreeMap
import R9P.Wire.Codec

/-!
# The server session

Library `Server`. `crates/core/src/{flush,fid}.rs` and `server/{config,session}.rs`: the table
of live requests, the fid table and the reservations that requests in flight hold on fids.
A `BTreeMap` is an `ExtTreeMap`, a `BTreeSet` a `Finset`. A method on `&mut self` that may
fail is a `Checked` computation, so a failure keeps what was changed before it.
-/

namespace R9P.Server
open Std Base Wire

/-! ### Requests in flight, `flush.rs` -/

/-- Identity of a request: its tag and the generation in which the tag was taken. -/
structure RequestKey where
  tag : Tag
  generation : UInt64
  deriving DecidableEq, Repr

/-- What a flush found under the tag it names; `flush.rs:14`. -/
inductive FlushOutcome where
  | cancelled (key : RequestKey)
  | unknown
  deriving DecidableEq, Repr

/-- The live requests by tag, and the generation of the next one; `flush.rs:20`. -/
structure RequestTable where
  nextGeneration : UInt64
  live : ExtTreeMap Tag RequestKey
  deriving DecidableEq

/-- `u64::saturating_add(1)`. -/
def saturatingSucc (n : UInt64) : UInt64 := if n = 0xffffffffffffffff then n else n + 1

namespace RequestTable

def new : RequestTable := ⟨0, ∅⟩

/-- A request holds the tag; `flush.rs:30`. -/
def isLive (self : RequestTable) (tag : Tag) : Bool := self.live.contains tag

/-- Take a tag for a new request; `flush.rs:34`. -/
def begin (self : RequestTable) (tag : Tag) : Result (RequestKey × RequestTable) :=
  if tag = NOTAG then .error (.fromStatic EBADTAG)
  else if self.live.contains tag then .error (.fromStatic EDUPTAG)
  else
    let key : RequestKey := ⟨tag, self.nextGeneration⟩
    .ok (key, ⟨saturatingSucc self.nextGeneration, self.live.insert tag key⟩)

/-- Free the tag of a request that still holds it; `flush.rs:50`. -/
def finish (self : RequestTable) (key : RequestKey) : Bool × RequestTable :=
  match self.live[key.tag]? with
  | some current =>
    if current = key then (true, { self with live := self.live.erase key.tag }) else (false, self)
  | none => (false, self)

/-- Cancel whatever request holds the tag; `flush.rs:60`. -/
def flush (self : RequestTable) (oldtag : Tag) : Result (FlushOutcome × RequestTable) :=
  if oldtag = NOTAG then .error (.fromStatic EBADTAG)
  else
    let outcome := match self.live[oldtag]? with
      | some key => .cancelled key
      | none => .unknown
    .ok (outcome, { self with live := self.live.erase oldtag })

/-- Drop every request; `flush.rs:70`. -/
def reset (self : RequestTable) : RequestTable := ⟨saturatingSucc self.nextGeneration, ∅⟩

end RequestTable

/-! ### Fids, `fid.rs` -/

/-- What the server keeps for a bound fid; `fid.rs:8`. -/
structure FidState where
  qid : Qid
  openMode : Option UInt8
  directoryOffset : UInt64
  deriving DecidableEq, Repr

namespace FidState

def new (qid : Qid) : FidState := ⟨qid, none, 0⟩
def opened (qid : Qid) (mode : UInt8) : FidState := ⟨qid, some mode, 0⟩
def withDirectoryOffset (self : FidState) (offset : UInt64) : FidState :=
  { self with directoryOffset := offset }

end FidState

/-- Limits and identity of a server; `config.rs:4`. -/
structure ServerConfig where
  defaultMsize : UInt32
  maxMsize : UInt32
  maxFids : Nat
  maxAsyncRequests : Nat
  variant : Variant
  sessionUname : Option Bytes
  deriving DecidableEq, Repr

/-- `config.rs:15`. -/
def ServerConfig.default : ServerConfig where
  defaultMsize := DEFAULT_MSIZE
  maxMsize := MAX_MSIZE
  maxFids := 4096
  maxAsyncRequests := 256
  variant := .plain
  sessionUname := none

/-- One request's sole hold on a fid; `session.rs:24`. -/
structure FidReservation where
  request : RequestKey
  newFid : Bool
  deriving DecidableEq, Repr

/-- All holds on a fid; `session.rs:30`. -/
structure FidReservations where
  exclusive : Option FidReservation
  shared : Finset RequestKey
  deriving DecidableEq

namespace FidReservations

def default : FidReservations := ⟨none, ∅⟩

/-- `session.rs:36`. -/
def isEmpty (self : FidReservations) : Bool := self.exclusive.isNone && self.shared = ∅

/-- The fid is promised to a request that will bind it. -/
def isNewFid (self : FidReservations) : Bool := self.exclusive.any (·.newFid)

/-- Drop the holds of one request; the loop body of `session.rs:230`. -/
def release (self : FidReservations) (request : RequestKey) : FidReservations where
  exclusive := if self.exclusive.any (·.request = request) then none else self.exclusive
  shared := self.shared.erase request

end FidReservations

/-- Outcome of a version request that named a large enough message size. -/
inductive VersionNegotiation where
  | accepted
  | unknown
  deriving DecidableEq, Repr

/-- The protocol state of one connection; `session.rs:12`. -/
structure Session where
  config : ServerConfig
  msize : UInt32
  version : Bytes
  variant : Option Variant
  negotiated : Bool
  fids : ExtTreeMap Fid FidState
  reservations : ExtTreeMap Fid FidReservations
  requests : RequestTable
  deriving DecidableEq

/-- `Option::ok_or_else` with a literal text. -/
def okOr {α : Type} (o : Option α) (e : String) : Result α :=
  match o with
  | some a => .ok a
  | none => .error (.fromStatic e)

namespace Session

/-- `session.rs:48`. -/
def new (config : ServerConfig) : Session where
  config := config
  msize := config.defaultMsize
  version := utf8 "unknown"
  variant := none
  negotiated := false
  fids := ∅
  reservations := ∅
  requests := .new

/-- Bound fids, and those promised to requests in flight; `session.rs:77`. -/
def fidCount (self : Session) : Nat :=
  self.fids.size + (self.reservations.filter fun _ reservations => reservations.isNewFid).size

/-- `session.rs:90`. -/
def authorizeUname (self : Session) (uname : Bytes) : Result Unit :=
  match self.config.sessionUname with
  | some authenticated =>
    if authenticated ≠ uname then .error (.fromStatic ENOAUTH) else .ok ()
  | none => .ok ()

/-- `session.rs:99`. -/
def containsFid (self : Session) (fid : Fid) : Bool :=
  self.fids.contains fid || self.reservations[fid]?.any FidReservations.isNewFid

/-- Forget everything but the configuration and the generations used; `session.rs:129`. -/
def invalidate (self : Session) : Session where
  config := self.config
  msize := MIN_MSIZE
  version := utf8 "unknown"
  variant := none
  negotiated := false
  fids := ∅
  reservations := ∅
  requests := self.requests.reset

/-- `session.rs:108`. -/
def resetForVersion (self : Session) (requestedMsize : UInt32) (version : Bytes) :
    Result VersionNegotiation × Session :=
  let self := self.invalidate
  if requestedMsize < MIN_MSIZE then (.error (.fromStatic EBADMSIZE), self)
  else
    match self.config.variant.accept version with
    | some accepted =>
      (.ok .accepted, { self with
        msize := min requestedMsize self.config.maxMsize
        version := accepted.wireName
        variant := some accepted
        negotiated := true })
    | none => (.ok .unknown, self)

/-- `session.rs:243`. -/
def ensureAvailable (self : Session) (fid : Fid) : Result Unit :=
  if self.reservations[fid]?.any (·.exclusive.isSome) then .error (.fromStatic EFIDBUSY)
  else .ok ()

/-- `session.rs:255`. -/
def ensureUnreserved (self : Session) (fid : Fid) : Result Unit :=
  if self.reservations[fid]?.any (!·.isEmpty) then .error (.fromStatic EFIDBUSY) else .ok ()

/-- `session.rs:174`. -/
def fid (self : Session) (fid : Fid) : Result FidState := do
  self.ensureAvailable fid
  okOr self.fids[fid]? EBADFID

/-- `session.rs:229`. -/
def releaseReservations (self : Session) (request : RequestKey) : Session :=
  { self with
    reservations := (self.reservations.map fun _ reservations => reservations.release
      request).filter
      fun _ reservations => !reservations.isEmpty }

/-- `session.rs:139`. -/
def bindFid (fid : Fid) (state : FidState) : Checked Session Error Unit := do
  .ask fun self => self.ensureUnreserved fid
  .ask fun self =>
    if !self.fids.contains fid && self.config.maxFids ≤ self.fids.size then
      .error (.fromStatic EFIDLIMIT)
    else .ok ()
  .update fun self => { self with fids := self.fids.insert fid state }

/-- `session.rs:148`. -/
def insertNewFid (fid : Fid) (state : FidState) : Checked Session Error Unit := do
  .ask fun self => if self.fids.contains fid then .error (.fromStatic EFIDINUSE) else .ok ()
  bindFid fid state

/-- Unbind a fid and keep its number reserved; `session.rs:155`. -/
def retireFid (request : RequestKey) (fid : Fid) : Checked Session Error FidState := do
  .ask fun self => self.ensureUnreserved fid
  let state ← .ask fun self => okOr self.fids[fid]? EBADFID
  .update fun self => { self with
    fids := self.fids.erase fid
    reservations := self.reservations.insert fid ⟨some ⟨request, false⟩, ∅⟩ }
  pure state

/-- `BTreeMap::entry(fid).or_default()`. -/
def entryOrDefault (self : Session) (fid : Fid) : Session :=
  match self.reservations[fid]? with
  | some _ => self
  | none => { self with reservations := self.reservations.insert fid .default }

/-- The entry of a fid, which `entryOrDefault` has made present. -/
def entry (self : Session) (fid : Fid) : FidReservations := self.reservations[fid]?.getD .default

/-- `session.rs:182`. -/
def reserveExistingFid (request : RequestKey) (fid : Fid) : Checked Session Error Unit := do
  .ask fun self => if !self.fids.contains fid then .error (.fromStatic EBADFID) else .ok ()
  .update fun self => self.entryOrDefault fid
  .ask fun self => if !(self.entry fid).isEmpty then .error (.fromStatic EFIDBUSY) else .ok ()
  .update fun self => { self with
    reservations := self.reservations.insert fid
      { self.entry fid with exclusive := some ⟨request, false⟩ } }

/-- `session.rs:197`. -/
def reserveSharedFid (request : RequestKey) (fid : Fid) : Checked Session Error Unit := do
  .ask fun self => if !self.fids.contains fid then .error (.fromStatic EBADFID) else .ok ()
  .update fun self => self.entryOrDefault fid
  .ask fun self =>
    if (self.entry fid).exclusive.isSome then .error (.fromStatic EFIDBUSY) else .ok ()
  .update fun self => { self with
    reservations := self.reservations.insert fid
      { self.entry fid with shared := insert request (self.entry fid).shared } }

/-- `session.rs:209`. -/
def reserveNewFid (request : RequestKey) (fid : Fid) : Checked Session Error Unit := do
  .ask fun self =>
    if self.containsFid fid || self.reservations.contains fid then .error (.fromStatic EFIDINUSE)
    else .ok ()
  .ask fun self =>
    if self.config.maxFids ≤ self.fidCount then .error (.fromStatic EFIDLIMIT) else .ok ()
  .update fun self => { self with
    reservations := self.reservations.insert fid ⟨some ⟨request, true⟩, ∅⟩ }

end Session

end R9P.Server
