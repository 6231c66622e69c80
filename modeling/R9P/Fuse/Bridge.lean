import R9P.Base.Checked
import R9P.Fuse.Table

/-!
# The bridge between the kernel and a server

Library `Fuse`. The request handlers of `fuse/src/fuse/ops` with what they share in
`mount_state.rs` and `dispatch.rs`. Each handler is a computation on the state of the mount that
calls the server; a failed call ends it, unless the source looks at the outcome. Requests run one
at a time, so locks are left out, and so are diagnostics, time limits and the kernel's
invalidation notices.
-/

namespace R9P.Fuse
open Base Base.Checked Wire

/-! ### Servers -/

/-- What the mount asks of a server through its client. -/
inductive Call where
  | connect
  | walk (fid : Fid) (names : Path)
  | stat (fid : Fid)
  | clunk (fid : Fid)
  | remove (fid : Fid)
  | wstat (fid : Fid) (stat : Stat)
  | renameAt (oldDir : Fid) (oldName : Bytes) (newDir : Fid) (newName : Bytes)
  | «open» (fid : Fid) (mode : UInt8)
  | create (fid : Fid) (name : Bytes) (perm : UInt32) (mode : UInt8)
  | read (fid : Fid) (offset : Nat) (count : Nat)
  | write (fid : Fid) (offset : Nat) (data : Bytes)

/-- How a call ends. A walk and a creation tell which fid the client has bound. -/
inductive Answer where
  | failed (error : Error)
  | done
  | walked (fid : Fid)
  | stat (stat : Stat)
  | created (fid : Fid) (qid : Qid)
  | data (bytes : Bytes)
  | entries (entries : List DirEntry) (length : Nat)
  | written (count : Nat)

/-- A server, with the part of the client that deals out fids. -/
structure Service where
  State : Type
  respond : State → Call → Answer × State

/-- A server that answers from a list. -/
def Service.scripted : Service where
  State := List Answer
  respond script _ := (script.headD (.failed ⟨ETIMEDOUT, text "9P response timeout"⟩), script.tail)

/-- A call that was made, with the connection it was made on. -/
structure Sent where
  client : Nat
  call : Call
  answer : Answer

/-- The state of a mount, `mod.rs:143`: the table, the number of the current connection and the
fids bound on it, and the server. The clock decides what depends on time. -/
structure Bridge (S : Service) where
  table : NodeTable
  client : Nat
  live : Std.ExtTreeSet Fid
  server : S.State
  sent : List Sent
  clock : List Bool
  sourcePath : Path
  negativeTimeout : Bool
  patience : Nat

/-- The fid of the root of a namespace; `session/src/client/namespace.rs:21`. -/
def ROOT_FID : Fid := 1

/-- A handler. -/
abbrev Op (S : Service) (α : Type) := Checked (Bridge S) Error α

variable {S : Service} {α : Type}

/-! ### Errors, `util.rs` -/

/-- A text that occurs in another. -/
def containsText (self part : Text) : Bool := self.tails.any (part.isPrefixOf ·)

/-- `util.rs:64`. -/
def isTransportError (error : Error) : Bool :=
  error.errno ∈ [EPIPE, ECONNRESET, ECONNABORTED, ENOTCONN, ESHUTDOWN, ETIMEDOUT, EAGAIN] ||
    error.errno = EIO && ([text "9P frame", text "9P reader stopped", text "9P response timeout",
      text "clone 9P stream"].any (containsText error.message ·))

/-- `util.rs:92`. -/
def isNamespaceShapeError (error : Error) : Bool :=
  error.errno = ENOENT || error.errno ∈ [ESTALE, EBADF] &&
    ([text "unknown fid", text "unknown namespace fid", text "stale fid"].any
      (containsText (error.message.map Char.toLower) ·))

/-- `util.rs:102`. -/
def isLookupNamespaceShapeError (error : Error) : Bool :=
  error.errno ≠ ENOENT && isNamespaceShapeError error

/-! ### Calls -/

/-- Make a call on the current connection. -/
def call (c : Call) : Op S Answer := ofExec fun b =>
  let (answer, server) := S.respond b.server c
  (.ok answer, { b with server := server, sent := b.sent ++ [⟨b.client, c, answer⟩] })

/-- The error for an answer of another kind. -/
def unexpected (what : String) : Error := ⟨EPROTO, text "unexpected reply for " ++ text what⟩

/-- A new fid, which no fid in use may be. -/
def bindFid (fid : Fid) : Op S Unit := do
  let bound ← ask fun b => .ok (b.live.contains fid)
  refuseIf bound ⟨24, text "namespace fid space exhausted"⟩
  update fun b => { b with live := b.live.insert fid }

def walk (fid : Fid) (names : Path) : Op S Fid := do
  match ← call (.walk fid names) with
  | .walked newFid => do
    bindFid newFid
    pure newFid
  | .failed e => throw e
  | _ => throw (unexpected "walk")

def walkOne (fid : Fid) (name : Bytes) : Op S Fid := walk fid [name]

def cloneFid (fid : Fid) : Op S Fid := walk fid []

def stat (fid : Fid) : Op S Stat := do
  match ← call (.stat fid) with
  | .stat stat => pure stat
  | .failed e => throw e
  | _ => throw (unexpected "stat")

/-- A call that is only done or not. -/
def perform (c : Call) (what : String) : Op S Unit := do
  match ← call c with
  | .done => pure ()
  | .failed e => throw e
  | _ => throw (unexpected what)

/-- Whatever the server says, a fid that was clunked is not to be used again. The root of a
namespace is never clunked; `namespace/operations.rs:253`. -/
def clunk (fid : Fid) : Op S Unit := do
  refuseIf (fid = ROOT_FID) ⟨16, text "cannot clunk the namespace root"⟩
  update fun b => { b with live := b.live.erase fid }
  perform (.clunk fid) "clunk"

/-- Clunk and look at nothing. -/
def release (fid : Fid) : Op S Unit := do
  let _ ← attempt (clunk fid)

/-- Clunk fids one after the other. -/
def releaseAll : List Fid → Op S Unit
  | [] => pure ()
  | fid :: rest => do
    release fid
    releaseAll rest

/-- A fid of an earlier connection has gone with it. -/
def clunkOn (client : Nat) (fid : Fid) : Op S Unit := do
  let current ← ask fun b => .ok b.client
  if client = current then clunk fid
  else throw ⟨ENOTCONN, text "9P reader stopped"⟩

/-- As a clunk, a removal uses the fid up; `namespace/operations.rs:297`. -/
def remove (fid : Fid) : Op S Unit := do
  refuseIf (fid = ROOT_FID) ⟨16, text "cannot remove the namespace root"⟩
  update fun b => { b with live := b.live.erase fid }
  perform (.remove fid) "remove"

def openFid (fid : Fid) (mode : UInt8) : Op S Unit := perform (.open fid mode) "open"

def create (fid : Fid) (name : Bytes) (perm : UInt32) (mode : UInt8) : Op S (Fid × Qid) := do
  match ← call (.create fid name perm mode) with
  | .created newFid qid => do
    bindFid newFid
    pure (newFid, qid)
  | .failed e => throw e
  | _ => throw (unexpected "create")

/-- Look at the table. -/
def view (f : NodeTable → Except Error α) : Op S α := ask fun b => f b.table

/-- Change the table. -/
def alter (f : NodeTable → Except Error (α × NodeTable)) : Op S α := ofExec fun b =>
  match f b.table with
  | .ok (a, table) => (.ok a, { b with table := table })
  | .error e => (.error e, b)

/-- Change the table in any case. -/
def change (f : NodeTable → α × NodeTable) : Op S α := alter fun table => .ok (f table)

/-- What the clock says. -/
def choose : Op S Bool := ofExec fun b =>
  (.ok (b.clock.headD false), { b with clock := b.clock.tail })

/-! ### Bindings, `mount_state.rs` -/

/-- `mount_state.rs:72`. -/
def walkFromSource (relative : Path) : Op S Fid := do
  let path ← ask fun b => .ok (b.sourcePath ++ relative)
  if path = [] then cloneFid ROOT_FID else walk ROOT_FID path

/-- A fid of the source, which is the root itself if there is no path to it. -/
def sourceFid (path : Path) : Op S Fid :=
  if path = [] then pure ROOT_FID else walk ROOT_FID path

/-- `mount_state.rs:22`. -/
def sourceBinding : Op S (Fid × Stat) := do
  let path ← ask fun b => .ok b.sourcePath
  let fid ← sourceFid path
  match ← attempt (stat fid) with
  | .ok stat => pure (fid, stat)
  | .error e => do
    releaseAll (if path = [] then [] else [fid])
    throw e

/-- `mount_state.rs:118`. -/
def boundNodeFid (nodeid : Nat) : Op S Fid := do
  let node ← view (·.node nodeid)
  match node.fid, node.needsRebind with
  | some fid, false => pure fid
  | _, _ => do
    let fid ← walkFromSource node.path
    let stat ← stat fid
    let oldFid ← alter (·.replaceBinding nodeid fid stat)
    releaseAll oldFid.toList
    pure fid

/-- `mount_state.rs:151`. -/
def freshNodeFid (nodeid : Nat) : Op S Fid := do
  let node ← view (·.node nodeid)
  walkFromSource node.path

/-- `mount_state.rs:164`. -/
def freshChildFid (parentNodeid : Nat) (name : Bytes) : Op S Fid := do
  let path ← view (·.childPath parentNodeid name)
  walkFromSource path

/-- `mount_state.rs:178`. -/
def cachedNodeStatIfFresh (nodeid : Nat) : Op S (Option Stat) := do
  let node ← view (·.node nodeid)
  let fresh ← choose
  pure (if node.needsRebind || node.stale || !fresh then none else some node.stat)

/-- `mount_state.rs:215`. -/
def clunkStaleBindings (stale : List StaleBinding) : Op S Unit :=
  releaseAll (stale.filterMap (·.fid))

/-- `mount_state.rs:193`. -/
def invalidateNamespaceBindingsAfterReply : Op S Unit := do
  let stale ← change (·.markPathBindingsStale)
  clunkStaleBindings stale

/-! ### Recovery, `dispatch.rs` -/

/-- `dispatch.rs:442`. -/
def sourceBindingRetryable (error : Error) : Bool :=
  error.errno ∈ [ENOENT, ESTALE, EAGAIN, ETIMEDOUT, ENOTCONN, 111, ECONNRESET, ECONNABORTED, EPIPE,
    100, 101, 112, 113]

/-- The source is asked for until a deadline; `dispatch.rs:357`. -/
def reconnectSourceBinding : Nat → Op S (Fid × Stat)
  | 0 => throw ⟨ETIMEDOUT,
      text "mounted namespace source did not return before reconnect deadline"⟩
  | patience + 1 => do
    match ← attempt sourceBinding with
    | .ok binding => pure binding
    | .error e => do
      let early ← choose
      if sourceBindingRetryable e && early then reconnectSourceBinding patience else throw e

/-- `dispatch.rs:287`. -/
def reconnect : Op S Unit := do
  change fun table => ((), table.applyRebindResults [] table.nodes.keys)
  perform .connect "connect"
  update fun b => { b with client := b.client + 1, live := Std.ExtTreeSet.empty.insert ROOT_FID }
  let patience ← ask fun b => .ok b.patience
  let (rootFid, rootStat) ← reconnectSourceBinding patience
  change fun table => ((), table.applyRebindResults [(ROOT_NODEID, rootFid, rootStat)] [])

/-- `dispatch.rs:414`. -/
def refreshNode (nodeid : Nat) : Op S Unit := do
  if nodeid = ROOT_NODEID then do
    let (rootFid, stat) ← sourceBinding
    let oldFid ← alter (·.replaceBinding nodeid rootFid stat)
    releaseAll oldFid.toList
  else do
    let node ← view (·.node nodeid)
    let fid ← walkFromSource node.path
    let stat ← stat fid
    let oldFid ← alter (·.replaceBinding nodeid fid stat)
    releaseAll oldFid.toList

/-- `dispatch.rs:384`. -/
def recoverNamespaceShape (nodeid : Nat) : Op S Unit := do
  match ← attempt (refreshNode nodeid) with
  | .ok () => do
    let force ← choose
    if force then reconnect
  | .error refreshError => do
    match ← attempt reconnect with
    | .ok () => pure ()
    | .error _ => throw refreshError

/-- Run once more behind the recovery that an error calls for. -/
def withRecovery (shape : Error → Bool) (recover : Op S Unit) (body : Op S α) : Op S α := do
  match ← attempt body with
  | .ok a => pure a
  | .error e =>
    if isTransportError e then do
      reconnect
      body
    else if shape e then do
      recover
      body
    else throw e

/-! ### Replies -/

/-- An entry of a directory with its node, unless it is one of the two special ones. -/
structure DirentPlus where
  nodeid : Nat
  generation : Nat
  stat : Stat
  name : Bytes
  special : Bool

/-- An entry of a directory without its node. -/
structure Dirent where
  inode : UInt64
  name : Bytes
  isDir : Bool

inductive Reply where
  | error (errno : Nat)
  | empty
  | entry (nodeid generation : Nat) (stat : Stat)
  | negative
  | attr (stat : Stat)
  | opened (handle : Nat)
  | created (nodeid generation : Nat) (stat : Stat) (handle : Nat)
  | dirents (entries : List Dirent)
  | direntsPlus (entries : List DirentPlus)
  | data (bytes : Bytes)
  | written (count : Nat)

/-! ### Lookup, `ops/lookup.rs` -/

/-- `lookup.rs:55`. -/
def lookupOnce (parent : Nat) (name : Bytes) : Op S Reply := do
  let fid ← freshChildFid parent name
  let stat ← stat fid
  let nodeid ← alter (·.insertLookupLazy parent stat name)
  let node ← view (·.node nodeid)
  let cachedFid ← alter (·.takeCachedFid nodeid)
  releaseAll (cachedFid.toList ++ [fid])
  pure (.entry nodeid node.generation stat)

/-- `lookup.rs:44`. -/
def lookupReply (result : Except Error Reply) : Op S Reply := do
  let negative ← ask fun b => .ok b.negativeTimeout
  match result with
  | .ok reply => pure reply
  | .error e => if e.errno = ENOENT && negative then pure .negative else throw e

/-- `lookup.rs:15`. An error of the recovery itself is returned at once. -/
def lookup (parent : Nat) (name : Bytes) : Op S Reply :=
  if name.contains 0x2f then pure (.error ENOENT)
  else do
    match ← attempt (lookupOnce parent name) with
    | .ok reply => lookupReply (.ok reply)
    | .error e =>
      if isTransportError e then do
        reconnect
        let result ← attempt (lookupOnce parent name)
        lookupReply result
      else if isLookupNamespaceShapeError e then do
        recoverNamespaceShape parent
        let result ← attempt (lookupOnce parent name)
        lookupReply result
      else lookupReply (.error e)

/-- `lookup.rs:104`. -/
def forgetNode (nodeid count : Nat) : Op S Unit := do
  let fid ← change (·.forget nodeid count)
  releaseAll fid.toList

/-- `lookup.rs:79` and `lookup.rs:86`. -/
def forget : List (Nat × Nat) → Op S Reply
  | [] => pure .empty
  | (nodeid, count) :: rest => do
    forgetNode nodeid count
    forget rest

/-! ### Attributes, `ops/attrs.rs` -/

/-- `attrs.rs:37`. -/
def getattrOnce (nodeid : Nat) : Op S Reply := do
  match ← cachedNodeStatIfFresh nodeid with
  | some stat => pure (.attr stat)
  | none => do
    let fid ← boundNodeFid nodeid
    let stat ← stat fid
    alter fun table => (table.updateStat nodeid stat).map (((), ·))
    pure (.attr stat)

/-- `attrs.rs:22`. -/
def getattr (nodeid : Nat) : Op S Reply :=
  withRecovery isNamespaceShapeError (recoverNamespaceShape nodeid) (getattrOnce nodeid)

/-! ### Creation, `ops/create.rs` -/

/-- `create.rs:157`. -/
def createRemote (parent : Nat) (name : Bytes) (perm : UInt32) (mode : UInt8) :
    Op S (Fid × Fid × Qid) := do
  let parentFid ← boundNodeFid parent
  let createFid ← cloneFid parentFid
  match ← attempt (create createFid name perm mode) with
  | .ok (fid, qid) => pure (parentFid, fid, qid)
  | .error e => do
    release createFid
    throw e

/-- Only the first call is made again; `create.rs:36`. -/
def createWithRecovery (parent : Nat) (name : Bytes) (perm : UInt32) (mode : UInt8) :
    Op S (Fid × Fid × Qid) := do
  match ← attempt (createRemote parent name perm mode) with
  | .ok created => pure created
  | .error e =>
    if isNamespaceShapeError e then do
      recoverNamespaceShape parent
      createRemote parent name perm mode
    else throw e

/-- `create.rs:207`. -/
def syntheticCreatedStat (name : Bytes) (qid : Qid) (perm : UInt32) : Stat where
  type := 0
  dev := 0
  qid := qid
  mode := perm &&& 0o777
  atime := 0
  mtime := 0
  length := 0
  name := name
  uid := utf8 "none"
  gid := utf8 "none"
  muid := utf8 "none"

/-- The handle of a file that was just created. -/
def createdHandle (client : Nat) (openFid : Fid) (mode : UInt8) : Handle where
  client := client
  fid := some openFid
  openMode := mode
  isDir := false
  writeOnRelease := mode ≠ Mode.OREAD
  closeCommit := false
  closeCommitFlushed := false
  bytesWritten := 0
  directory := none

/-- The node of a new file, with the fid that the bridge walks to it; `create.rs:45`. -/
def walkCreated (parentFid : Fid) (name : Bytes) : Op S (Fid × Stat) := do
  let nodeFid ← walkOne parentFid name
  match ← attempt (stat nodeFid) with
  | .ok stat => pure (nodeFid, stat)
  | .error e => do
    release nodeFid
    throw e

/-- `create.rs:22`. -/
def createFile (parent : Nat) (name : Bytes) (perm : UInt32) (mode : UInt8) : Op S Reply := do
  let perm := perm &&& 0o777
  let (parentFid, openFid, createdQid) ← createWithRecovery parent name perm mode
  let client ← ask fun b => .ok b.client
  match ← attempt (walkCreated parentFid name) with
  | .ok (nodeFid, stat) => do
    let inserted ← alter (·.insertLookup parent nodeFid stat name)
    let handle ← change (·.openHandle (createdHandle client openFid mode))
    let node ← view (·.node inserted.nodeid)
    releaseAll inserted.clunkFid.toList
    pure (.created inserted.nodeid node.generation stat handle)
  | .error e =>
    if isNamespaceShapeError e then do
      let stat := syntheticCreatedStat name createdQid perm
      let nodeid ← alter (·.insertLookupLazy parent stat name)
      let handle ← change (·.openHandle (createdHandle client openFid mode))
      let node ← view (·.node nodeid)
      pure (.created nodeid node.generation stat handle)
    else do
      release openFid
      throw e

/-- `create.rs:182`. -/
def insertCreatedNode (parent : Nat) (parentFid : Fid) (name : Bytes) : Op S Reply := do
  let nodeFid ← walkOne parentFid name
  let stat ← stat nodeFid
  let inserted ← alter (·.insertLookup parent nodeFid stat name)
  let node ← view (·.node inserted.nodeid)
  releaseAll inserted.clunkFid.toList
  pure (.entry inserted.nodeid node.generation stat)

/-- A new directory or a new file that is not opened. -/
def makeNode (parent : Nat) (name : Bytes) (perm : UInt32) : Op S Reply := do
  let (parentFid, fid, _) ← createWithRecovery parent name perm Mode.OREAD
  release fid
  insertCreatedNode parent parentFid name

/-- `create.rs:107`. -/
def mkdir (parent : Nat) (name : Bytes) (mode : UInt32) : Op S Reply :=
  makeNode parent name (DMDIR ||| (mode &&& 0o777))

/-- `create.rs:132`. -/
def mknod (parent : Nat) (name : Bytes) (mode : UInt32) : Op S Reply :=
  makeNode parent name (mode &&& 0o777)

/-! ### Removal and renaming, `ops/mutate.rs` -/

/-- `mutate.rs:93`. -/
def walkChildForMutation (parent : Nat) (name : Bytes) : Op S Fid := do
  let parentFid ← boundNodeFid parent
  walkOne parentFid name

/-- `mutate.rs:34`. -/
def removeChild (parent : Nat) (name : Bytes) : Op S Reply := do
  let removedPath ← view (·.childPath parent name)
  let fid ← withRecovery isNamespaceShapeError (recoverNamespaceShape parent)
    (walkChildForMutation parent name)
  remove fid
  let staleFids ← change (·.removePathSubtree removedPath)
  releaseAll staleFids
  pure .empty

/-- `mutate.rs:21`. -/
structure RenamePlan where
  oldParentFid : Fid
  newParentFid : Fid
  fid : Fid
  before : Stat
  oldPath : Path
  replaced : Option Stat
  newPath : Path
  crossParent : Bool

/-- The stat of a fid that was walked to on the way, which is clunked if there is none. -/
def statOr (cleanup : List Fid) (fid : Fid) : Op S Stat := do
  match ← attempt (stat fid) with
  | .ok stat => pure stat
  | .error e => do
    releaseAll cleanup
    throw e

def overDirectory : Error := ⟨EISDIR, text "cannot rename a file over a directory"⟩

/-- What is at the new name, if anything; `mutate.rs:121`. -/
def findReplaced (newParentFid fid : Fid) (newName : Bytes) (crossParent : Bool) :
    Op S (Option Stat) := do
  match ← attempt (walkOne newParentFid newName) with
  | .error _ => pure none
  | .ok existing => do
    let existingStat ← statOr [existing, fid] existing
    if !crossParent && isDir existingStat then do
      releaseAll [existing, fid]
      throw overDirectory
    else do
      release existing
      pure (some existingStat)

/-- The fid of the new parent, which is the one of the old parent if they are one. -/
def newParentFid (oldParent newParent : Nat) (oldParentFid : Fid) : Op S Fid :=
  if newParent = oldParent then pure oldParentFid else boundNodeFid newParent

/-- `mutate.rs:103`. -/
def prepareRename (oldParent newParent : Nat) (oldName newName : Bytes) : Op S RenamePlan := do
  let oldPath ← view (·.childPath oldParent oldName)
  let newPath ← view (·.childPath newParent newName)
  let oldParentFid ← boundNodeFid oldParent
  let newParentFid ← newParentFid oldParent newParent oldParentFid
  let crossParent : Bool := newParent ≠ oldParent
  let fid ← walkOne oldParentFid oldName
  let before ← stat fid
  let replaced ← findReplaced newParentFid fid newName crossParent
  pure ⟨oldParentFid, newParentFid, fid, before, oldPath, replaced, newPath, crossParent⟩

/-- A stat that changes nothing but the name. -/
def nullWstat (name : Bytes) : Stat where
  type := 0xffff
  dev := 0xffffffff
  qid := ⟨0xff, 0xffffffff, 0xffffffffffffffff⟩
  mode := 0xffffffff
  atime := 0xffffffff
  mtime := 0xffffffff
  length := 0xffffffffffffffff
  name := name
  uid := []
  gid := []
  muid := []

/-- `mutate.rs:300`. -/
def renameFid (fid : Fid) (newName : Bytes) : Op S Unit :=
  perform (.wstat fid (nullWstat newName)) "wstat"

/-- Remove the file at the new name, if there is one, and tell what it was; `mutate.rs:195`. -/
def removeReplaced (plan : RenamePlan) (newName : Bytes) : Op S (Option Stat) := do
  match ← attempt (walkOne plan.oldParentFid newName) with
  | .error _ => pure plan.replaced
  | .ok existing => do
    let existingStat ← statOr [existing, plan.fid] existing
    if isDir existingStat then do
      releaseAll [existing, plan.fid]
      throw overDirectory
    else do
      let _ ← attempt (remove existing)
      pure (some existingStat)

/-- The way out for servers that do not rename over a file: remove it and rename again;
`mutate.rs:194`. -/
def removeAndRename (plan : RenamePlan) (newName : Bytes) : Op S (Option Stat) := do
  let replaced ← removeReplaced plan newName
  renameFid plan.fid newName
  pure replaced

/-- The renaming on the server; `mutate.rs:176`. -/
def renameRemote (plan : RenamePlan) (oldName newName : Bytes) : Op S (Option Stat) := do
  if plan.crossParent then
    match ← attempt (perform (.renameAt plan.oldParentFid oldName plan.newParentFid newName)
      "renameat") with
    | .ok () => pure plan.replaced
    | .error e => do
      release plan.fid
      throw e
  else
    match ← attempt (renameFid plan.fid newName) with
    | .ok () => pure plan.replaced
    | .error e =>
      if e.errno = EEXIST then removeAndRename plan newName
      else do
        release plan.fid
        throw e

/-- `mutate.rs:272`. -/
def statRenamedFid (parentFid fid : Fid) (newName : Bytes) : Op S (Fid × Stat) := do
  match ← attempt (stat fid) with
  | .ok stat => pure (fid, stat)
  | .error e =>
    if isNamespaceShapeError e then do
      release fid
      let rebound ← walkOne parentFid newName
      let stat ← statOr [rebound] rebound
      pure (rebound, stat)
    else do
      release fid
      throw e

/-- The nodes behind a renaming, first those of a directory that was replaced; `mutate.rs:224`. -/
def dropReplaced (plan : RenamePlan) (replaced : Option Stat) : Op S (Option Stat) :=
  if replaced.any isDir then do
    let staleFids ← change (·.removePathSubtree plan.newPath)
    releaseAll staleFids
    pure none
  else pure replaced

/-- The node of a file that was replaced; `mutate.rs:249`. -/
def rebindReplaced (plan : RenamePlan) (newName : Bytes) (after : Stat) : Option Stat → Op S Unit
  | none => pure ()
  | some replaced => do
    match ← attempt (walkOne plan.newParentFid newName) with
    | .error _ => pure ()
    | .ok replacement => do
      match ← change (·.replaceFirstQid replaced.qid replacement after (some plan.newPath)) with
      | some oldFid => release oldFid
      | none => release replacement

/-- The node of what was renamed takes the fid, if one is found that had a fid; `mutate.rs:237`. -/
def rebindSource (plan : RenamePlan) (fid : Fid) (after : Stat) : Op S Bool := do
  match ← change (·.replaceFirstQid plan.before.qid fid after (some plan.newPath)) with
  | some oldFid => do
    release oldFid
    pure true
  | none => pure false

/-- A fid that is taken for unused; `mutate.rs:265`. -/
def refreshSource (plan : RenamePlan) (fid : Fid) (after : Stat) (sourceRebound : Bool) :
    Op S Unit :=
  if sourceRebound then pure ()
  else do
    change fun table => ((), table.refreshQid plan.before.qid after (some plan.newPath))
    release fid

/-- `mutate.rs:157`. -/
def renamePrepared (plan : RenamePlan) (oldName newName : Bytes) : Op S Reply := do
  let replaced ← renameRemote plan oldName newName
  let (fid, after) ← statRenamedFid plan.newParentFid plan.fid newName
  let replaced ← dropReplaced plan replaced
  change fun table => ((), table.movePathPrefix plan.oldPath plan.newPath)
  let sourceRebound ← rebindSource plan fid after
  rebindReplaced plan newName after replaced
  refreshSource plan fid after sourceRebound
  pure .empty

/-- Preparations are made again behind a recovery; `mutate.rs:75`. -/
def planRename (oldParent newParent : Nat) (oldName newName : Bytes) : Op S RenamePlan :=
  withRecovery isNamespaceShapeError
    (do
      recoverNamespaceShape oldParent
      if newParent ≠ oldParent then recoverNamespaceShape newParent)
    (prepareRename oldParent newParent oldName newName)

/-- `mutate.rs:63`. -/
def rename (oldParent newParent : Nat) (oldName newName : Bytes) : Op S Reply := do
  let plan ← planRename oldParent newParent oldName newName
  renamePrepared plan oldName newName

end R9P.Fuse
