import R9P.Server.Session
import R9P.Wire.Directory

/-!
# Admission and completion of requests

Library `Server`. `crates/core/src/server/{types,validation,handlers}.rs`. `admit` takes a
request message and either answers it, or reserves the fids it needs and dispatches it to
the backend; `complete` takes the backend's result for a dispatched request and answers it.
The backend itself is outside: a completion is whatever it returns. Conversions to `usize`
never fail on the 64-bit targets modelled here.
-/

namespace R9P.Server
open Base Wire

/-! ### Requests, completions and events, `types.rs` -/

structure OpenFile where
  qid : Qid
  iounit : UInt32
  deriving DecidableEq, Repr

inductive ReadData where
  | bytes (bytes : Bytes)
  | directory (stats : List Stat)
  deriving DecidableEq, Repr

/-- A request as the backend sees it, with the qids its fids stood for; `types.rs:45`. -/
inductive ServerRequestKind where
  | auth (afid : Fid) (uname aname : Bytes)
  | attach (fid afid : Fid) (uname aname : Bytes)
  | walk (fid newfid : Fid) (start : Qid) (wnames : List Bytes)
  | open (fid : Fid) (qid : Qid) (mode : UInt8)
  | create (fid : Fid) (qid : Qid) (name : Bytes) (perm : UInt32) (mode : UInt8)
  | read (fid : Fid) (qid : Qid) (offset : UInt64) (count : UInt32)
  | write (fid : Fid) (qid : Qid) (offset : UInt64) (data : Bytes)
  | clunk (fid : Fid) (qid : Qid)
  | remove (fid : Fid) (qid : Qid)
  | stat (fid : Fid) (qid : Qid)
  | wstat (fid : Fid) (qid : Qid) (stat : Stat)
  | renameAt (olddirfid : Fid) (olddirQid : Qid) (oldname : Bytes) (newdirfid : Fid)
      (newdirQid : Qid) (newname : Bytes)
  | referrals (fid : Fid) (qid : Qid)
  deriving DecidableEq, Repr

structure ServerRequest where
  key : RequestKey
  kind : ServerRequestKind
  deriving DecidableEq, Repr

def ServerRequest.tag (self : ServerRequest) : Tag := self.key.tag

/-- What the backend returns for a request; `types.rs:119`. -/
inductive ServerCompletion where
  | auth (qid : Qid)
  | attach (qid : Qid)
  | walk (qids : List Qid)
  | open (opened : OpenFile)
  | create (opened : OpenFile)
  | read (data : ReadData)
  | write (count : UInt32)
  | clunk
  | remove
  | stat (stat : Stat)
  | wstat
  | renameAt
  | referrals (referrals : List NamespaceReferral)
  deriving DecidableEq, Repr

/-- What admitting a message comes to; `types.rs:23`. -/
inductive ServerEvent where
  | reply (message : RMessage)
  | dispatch (request : ServerRequest)
  | flush (reply : RMessage) (outcome : FlushOutcome)
  deriving DecidableEq, Repr

/-! ### Validation, `validation.rs` and `handlers.rs:521` -/

/-- A name that may be walked to; the loop body of `validation.rs:16`. -/
def badName (name : Bytes) : Bool :=
  name.isEmpty || name.contains 0x2f || name.contains 0 || name.length > 65535

/-- `validation.rs:12`. -/
def validateWalkNames (wnames : List Bytes) : Result Unit :=
  if wnames.length > MAXWELEM then .error (.fromStatic "name too long")
  else if wnames.any badName then .error (.fromStatic EBADWNAME)
  else .ok ()

/-- `validation.rs:28`. -/
def validateWstat (qid : Qid) (stat : Stat) (variant : Variant) : Result Unit := do
  if stat.type ≠ 0xffff then .error (.fromStatic EWSTATTYPE)
  if stat.dev ≠ 0xffffffff then .error (.fromStatic EWSTATDEV)
  if stat.qid ≠ ⟨0xff, 0xffffffff, 0xffffffffffffffff⟩ then .error (.fromStatic EWSTATQID)
  if stat.atime ≠ 0xffffffff then .error (.fromStatic EWSTATATIME)
  if !stat.uid.isEmpty then .error (.fromStatic EWSTATUID)
  if !stat.muid.isEmpty then .error (.fromStatic EWSTATMUID)
  if stat.mode ≠ 0xffffffff ∧ (stat.mode &&& DMDIR != 0) ≠ qid.isDir then
    .error (.fromStatic EWSTATDMDIR)
  if stat.mode ≠ 0xffffffff then
    let requestedSymlink := stat.mode &&& DMSYMLINK != 0
    if requestedSymlink ≠ qid.isSymlink || (requestedSymlink && !variant.supportsSymlinks) then
      .error (.fromStatic EWSTATDMSYMLINK)
  if qid.isDir ∧ stat.length ≠ 0xffffffffffffffff ∧ stat.length ≠ 0 then
    .error (.fromStatic EWSTATDIRLENGTH)
  .ok ()

/-- `validation.rs:64`. -/
def takeCount (bytes : Bytes) (count : UInt32) : Bytes := bytes.take count.toNat

/-- Both branches of `validation.rs:72` send the text of the error. -/
def errorReply (tag : Tag) (error : Error) : RMessage :=
  let ename := if tag = NOTAG ∧ error.message = utf8 EBADTAG then utf8 EBADTAG else error.message
  .error tag ename

/-- `handlers.rs:521`. -/
def validateQidVariant (variant : Variant) (qid : Qid) : Result Unit :=
  if qid.isSymlink && !variant.supportsSymlinks then .error (.fromStatic ESYMLINKDIALECT)
  else .ok ()

/-- `handlers.rs:529`. -/
def validateStatVariant (variant : Variant) (stat : Stat) : Result Unit := do
  validateQidVariant variant stat.qid
  if stat.mode &&& DMSYMLINK != 0 && !variant.supportsSymlinks then
    .error (.fromStatic ESYMLINKDIALECT)
  else .ok ()

/-- `handlers.rs:634`. -/
def validateOpen (state : FidState) (openMode : UInt8) : Result Unit :=
  if state.openMode.isSome then .error (.fromStatic EFIDOPEN)
  else if !Mode.isValid openMode then .error (.fromStatic EBADMODE)
  else if state.qid.isDir && !Mode.isDirectoryMode openMode then .error (.fromStatic EBADMODE)
  else .ok ()

/-- `handlers.rs:647`. -/
def validateCreate (state : FidState) (perm : UInt32) (openMode : UInt8) : Result Unit :=
  if state.openMode.isSome then .error (.fromStatic EFIDOPEN)
  else if !state.qid.isDir then .error (.fromStatic ENOTDIR)
  else if !Mode.isValid openMode then .error (.fromStatic EBADMODE)
  else if perm &&& DMDIR != 0 && !Mode.isDirectoryMode openMode then
    .error (.fromStatic EBADMODE)
  else .ok ()

/-- `handlers.rs:663`. -/
def validateRead (state : FidState) (offset : UInt64) : Result Unit :=
  if state.qid.isAuth then .ok ()
  else
    match state.openMode with
    | none => .error (.fromStatic EFIDNOTOPEN)
    | some openMode =>
      if !Mode.permitsRead openMode then .error (.fromStatic EFIDNOTOPEN)
      else if state.qid.isDir && offset != 0 && offset != state.directoryOffset then
        .error (.fromStatic EBADDIROFFSET)
      else .ok ()

/-- `handlers.rs:679`. -/
def validateWrite (state : FidState) : Result Unit :=
  if state.qid.isAuth then .ok ()
  else
    match state.openMode with
    | none => .error (.fromStatic EFIDNOTOPEN)
    | some openMode =>
      if state.qid.isDir || !Mode.permitsWrite openMode then .error (.fromStatic EFIDNOTOPEN)
      else .ok ()

/-- `handlers.rs:692`. -/
def clampIounit (msize iounit : UInt32) : UInt32 :=
  if iounit = 0 then 0 else min iounit (maxIounit msize)

/-- Apply a check to every element, stopping at the first that fails. -/
def forAll {α : Type} (check : α → Result Unit) : List α → Result Unit
  | [] => .ok ()
  | a :: rest => do
    check a
    forAll check rest

open Server.Session

/-! ### Admission -/

/-- The checks and reservations of one request; `handlers.rs:102`. The first arm is
unreachable: `admit` answers a version request itself. -/
def admitAfterBegin (message : TMessage) (key : RequestKey) : Checked Session Error ServerEvent :=
  match message with
  | .version .. => throw (.fromStatic "Tversion handled before admission")
  | .auth _ afid uname aname => do
    .ask fun self => self.authorizeUname uname
    .refuseIf (afid = NOFID) (.fromStatic ENOAUTH)
    reserveNewFid key afid
    pure (.dispatch ⟨key, .auth afid uname aname⟩)
  | .attach _ fid afid uname aname => do
    .ask fun self => self.authorizeUname uname
    if afid ≠ NOFID then
      let authState ← .ask fun self => self.fid afid
      .refuseIf (!authState.qid.isAuth) (.fromStatic ENOAUTH)
      reserveExistingFid key afid
    reserveNewFid key fid
    pure (.dispatch ⟨key, .attach fid afid uname aname⟩)
  | .flush _ oldtag => do
    let outcome ← .ofExec fun self =>
      match self.requests.flush oldtag with
      | .ok (outcome, requests) => (.ok outcome, { self with requests := requests })
      | .error e => (.error e, self)
    if let .cancelled cancelled := outcome then
      .update fun self => self.releaseReservations cancelled
    .update fun self => { self with requests := (self.requests.finish key).2 }
    pure (.flush (.flush key.tag) outcome)
  | .walk _ fid newfid wnames => do
    .ask fun _ => validateWalkNames wnames
    let source ← .ask fun self => self.fid fid
    .refuseIf source.openMode.isSome (.fromStatic EFIDOPEN)
    .refuseIf (!wnames.isEmpty && !source.qid.isDir) (.fromStatic ENOTDIR)
    if newfid = fid then reserveExistingFid key fid
    else
      reserveSharedFid key fid
      reserveNewFid key newfid
    pure (.dispatch ⟨key, .walk fid newfid source.qid wnames⟩)
  | .open _ fid mode => do
    let state ← .ask fun self => self.fid fid
    .ask fun _ => validateOpen state mode
    reserveExistingFid key fid
    pure (.dispatch ⟨key, .open fid state.qid mode⟩)
  | .create _ fid name perm mode => do
    let state ← .ask fun self => self.fid fid
    .ask fun _ => validateCreate state perm mode
    reserveExistingFid key fid
    pure (.dispatch ⟨key, .create fid state.qid name perm mode⟩)
  | .read _ fid offset count => do
    let state ← .ask fun self => self.fid fid
    .ask fun _ => validateRead state offset
    if state.qid.isDir then reserveExistingFid key fid
    let count ← .ask fun self => .ok (clampReadCount self.msize count)
    pure (.dispatch ⟨key, .read fid state.qid offset count⟩)
  | .write _ fid offset data => do
    .ask fun self =>
      if data.length > (maxWritePayload self.msize).toNat then
        .error (.fromStatic "write exceeds msize")
      else .ok ()
    let state ← .ask fun self => self.fid fid
    .ask fun _ => validateWrite state
    pure (.dispatch ⟨key, .write fid state.qid offset data⟩)
  | .clunk _ fid => do
    let state ← retireFid key fid
    pure (.dispatch ⟨key, .clunk fid state.qid⟩)
  | .remove _ fid => do
    let state ← retireFid key fid
    pure (.dispatch ⟨key, .remove fid state.qid⟩)
  | .stat _ fid => do
    let state ← .ask fun self => self.fid fid
    pure (.dispatch ⟨key, .stat fid state.qid⟩)
  | .wstat _ fid stat => do
    let state ← .ask fun self => self.fid fid
    let variant ← .ask fun self => okOr self.variant "version not negotiated"
    .ask fun _ => validateWstat state.qid stat variant
    reserveExistingFid key fid
    pure (.dispatch ⟨key, .wstat fid state.qid stat⟩)
  | .renameAt _ olddirfid oldname newdirfid newname => do
    let variant ← .ask fun self => okOr self.variant "version not negotiated"
    .refuseIf (!variant.supportsRenameAt) (.fromStatic "renameat requires negotiated 9P2000.R")
    .ask fun _ => validateWalkNames [oldname, newname]
    let olddir ← .ask fun self => self.fid olddirfid
    let newdir ← .ask fun self => self.fid newdirfid
    .refuseIf (!olddir.qid.isDir || !newdir.qid.isDir) (.fromStatic ENOTDIR)
    reserveSharedFid key olddirfid
    if newdirfid ≠ olddirfid then reserveSharedFid key newdirfid
    pure (.dispatch
      ⟨key, .renameAt olddirfid olddir.qid oldname newdirfid newdir.qid newname⟩)
  | .referrals _ fid => do
    let variant ← .ask fun self => okOr self.variant "version not negotiated"
    .refuseIf (!variant.supportsReferrals)
      (.fromStatic "namespace referrals require negotiated 9P2000.R")
    let state ← .ask fun self => self.fid fid
    reserveSharedFid key fid
    pure (.dispatch ⟨key, .referrals fid state.qid⟩)

/-- Answer a request whose admission failed; `handlers.rs:362`. -/
def finishWithReply (self : Session) (key : RequestKey) (reply : RMessage) :
    ServerEvent × Session :=
  let self := { self with requests := (self.requests.finish key).2 }
  (.reply reply, self.releaseReservations key)

/-- The reply to a version request; `handlers.rs:30`. -/
def versionReply (tag : Tag) : Result VersionNegotiation × Session → ServerEvent × Session
  | (.ok _, self) => (.reply (.version tag self.msize self.version), self)
  | (.error error, self) => (.reply (errorReply tag error), self)

/-- `handlers.rs:47`, behind the version and negotiation checks. -/
def admitRequest (self : Session) (message : TMessage) : ServerEvent × Session :=
  match self.requests.begin message.tag with
  | .error error => (.reply (errorReply message.tag error), self)
  | .ok (key, requests) =>
    match (admitAfterBegin message key).exec { self with requests := requests } with
    | (.ok event, self) => (event, self)
    | (.error error, self) => finishWithReply self key (errorReply message.tag error)

/-- Take a request message, `admit` of `handlers.rs:23`. -/
def admitMessage (self : Session) (message : TMessage) : ServerEvent × Session :=
  match message with
  | .version tag msize version => versionReply tag (self.resetForVersion msize version)
  | message =>
    if !self.negotiated then
      (.reply (errorReply message.tag (.fromStatic "version not negotiated")), self)
    else admitRequest self message

/-! ### Completion -/

/-- Bind what the backend returned and build the reply; `handlers.rs:368`. -/
def applyCompletion (tag : Tag) (request : ServerRequestKind) (completion : ServerCompletion) :
    Checked Session Error RMessage := do
  let variant ← .ask fun self => okOr self.variant "version not negotiated"
  match request, completion with
  | .auth afid _ _, .auth qid => do
    .refuseIf (!qid.isAuth) (.fromStatic ENOAUTH)
    .ask fun _ => validateQidVariant variant qid
    insertNewFid afid (.opened qid Mode.ORDWR)
    pure (.auth tag qid)
  | .attach fid _ _ _, .attach qid => do
    .ask fun _ => validateQidVariant variant qid
    insertNewFid fid (.new qid)
    pure (.attach tag qid)
  | .walk fid newfid start wnames, .walk qids => do
    .refuseIf (qids.length > wnames.length) (.fromStatic "walk returned too many qids")
    .ask fun _ => forAll (validateQidVariant variant) qids
    if wnames.isEmpty then
      if newfid ≠ fid then insertNewFid newfid (.new start)
      pure (.walk tag [])
    else
      match qids.getLast? with
      | none => throw (.fromStatic ENOENT)
      | some qid =>
        if qids.length = wnames.length then
          if newfid = fid then bindFid fid (.new qid) else insertNewFid newfid (.new qid)
        pure (.walk tag qids)
  | .open fid _ mode, .open opened => do
    .ask fun _ => validateQidVariant variant opened.qid
    bindFid fid (.opened opened.qid mode)
    .ask fun self => .ok (.open tag opened.qid (clampIounit self.msize opened.iounit))
  | .create fid _ _ _ mode, .create opened => do
    .ask fun _ => validateQidVariant variant opened.qid
    bindFid fid (.opened opened.qid mode)
    .ask fun self => .ok (.create tag opened.qid (clampIounit self.msize opened.iounit))
  | .read fid qid offset count, .read data => do
    let data ← match data with
      | .bytes bytes => pure (takeCount bytes count)
      | .directory stats => do
        .ask fun _ => forAll (validateStatVariant variant) stats
        .ask fun _ => dirreadChunk stats offset count
    if qid.isDir then
      let state ← .ask fun self => self.fid fid
      .refuseIf (offset.toNat + data.length ≥ 2 ^ 64) (.fromStatic "directory offset overflow")
      bindFid fid (state.withDirectoryOffset (offset + UInt64.ofNat data.length))
    pure (.read tag data)
  | .write _ _ _ data, .write count => do
    .refuseIf (count.toNat > data.length)
      (.fromStatic "write completion exceeds request count")
    pure (.write tag count)
  | .clunk .., .clunk => pure (.clunk tag)
  | .remove .., .remove => pure (.remove tag)
  | .stat .., .stat stat => do
    .ask fun _ => validateStatVariant variant stat
    pure (.stat tag stat)
  | .wstat .., .wstat => pure (.wstat tag)
  | .renameAt .., .renameAt => pure (.renameAt tag)
  | .referrals .., .referrals referrals => do
    .ask fun _ => forAll NamespaceReferral.validate referrals
    pure (.referrals tag referrals)
  | _, _ => throw (.fromStatic "completion kind does not match request")

/-- What `complete` does once it has freed the tag and the reservations of a live request. -/
def settle (self : Session) (request : ServerRequest) (completion : Result ServerCompletion) :
    RMessage × Session :=
  match completion with
  | .error error => (errorReply request.tag error, self)
  | .ok completion =>
    match (applyCompletion request.tag request.kind completion).exec self with
    | (.ok reply, self) => (reply, self)
    | (.error error, self) => (errorReply request.tag error, self)

/-- Take the backend's result for a dispatched request; `handlers.rs:61`. -/
def complete (self : Session) (request : ServerRequest) (completion : Result ServerCompletion) :
    Option RMessage × Session :=
  match self.requests.finish request.key with
  | (false, requests) => (none, { self with requests := requests })
  | (true, requests) =>
    let released := { self with requests := requests }.releaseReservations request.key
    let (reply, self) := settle released request completion
    (some reply, self)

end R9P.Server
