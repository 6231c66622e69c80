import R9P.Fuse.Bridge

/-!
# Handles, directories and the change feed

Library `Fuse`. The rest of the handlers: `ops/attrs.rs`, `ops/io`, `ops/dir.rs`, the flush of
`ops/misc.rs` and the invalidations of `change_feed.rs`, and the dispatch of a request. The
persistent read cache stands between a read and the server elsewhere; here a read goes through.
-/

namespace R9P.Fuse
open Base Base.Checked Wire

variable {S : Service}

def CLOSE_COMMIT_MODE_FLAG : UInt32 := 0x01000000

/-- `node.rs:14`. -/
def hasCloseCommitMode (stat : Stat) : Bool := stat.mode &&& CLOSE_COMMIT_MODE_FLAG ≠ 0

/-- `handles.rs:56`. -/
def Handle.requireFid (self : Handle) : Except Error Fid :=
  match self.fid with
  | some fid => .ok fid
  | none => .error ⟨ESTALE, text "file handle has no 9P fid"⟩

/-- A call through a handle, which may be of an earlier connection. -/
def callOn (client : Nat) (c : Call) : Op S Answer := do
  let current ← ask fun b => .ok b.client
  if client = current then call c else pure (.failed ⟨ENOTCONN, text "9P reader stopped"⟩)

def performOn (client : Nat) (c : Call) (what : String) : Op S Unit := do
  match ← callOn client c with
  | .done => pure ()
  | .failed e => throw e
  | _ => throw (unexpected what)

/-! ### Attributes -/

def cloneFidOn (client : Nat) (fid : Fid) : Op S Fid := do
  match ← callOn client (.walk fid []) with
  | .walked newFid => do
    bindFid newFid
    pure newFid
  | .failed e => throw e
  | _ => throw (unexpected "walk")

def statOn (client : Nat) (fid : Fid) : Op S Stat := do
  match ← callOn client (.stat fid) with
  | .stat stat => pure stat
  | .failed e => throw e
  | _ => throw (unexpected "stat")

/-- `attrs.rs:126`. -/
def truncateFallback (client : Nat) (fid : Fid) : Op S Unit := do
  let clone ← cloneFidOn client fid
  match ← attempt (openFid clone (Mode.OWRITE ||| Mode.OTRUNC)) with
  | .ok () => clunk clone
  | .error _ => do
    match ← attempt (openFid clone Mode.OWRITE) with
    | .ok () => clunk clone
    | .error e => do
      release clone
      throw e

/-- The fid to set attributes through; `attrs.rs:88`. -/
def setattrFid (nodeid : Nat) (fh : Option Nat) : Op S (Nat × Fid) :=
  match fh with
  | some fh => do
    let handle ← view (·.handle fh)
    let fid ← ask fun _ => handle.requireFid
    pure (handle.client, fid)
  | none => do
    let fid ← boundNodeFid nodeid
    let client ← ask fun b => .ok b.client
    pure (client, fid)

/-- `attrs.rs:99`. -/
def setSize (client : Nat) (fid : Fid) (size : UInt64) : Op S Unit := do
  match ← attempt (performOn client (.wstat fid { nullWstat [] with length := size }) "wstat") with
  | .ok () => pure ()
  | .error e => if size = 0 then truncateFallback client fid else throw e

/-- A size that was not ignored, and the stat behind it; `attrs.rs:99`. -/
def resize (nodeid : Nat) (client : Nat) (fid : Fid) (size : Option UInt64) (ignored : Bool) :
    Op S Stat :=
  if ignored then do
    let node ← view (·.node nodeid)
    pure node.stat
  else do
    match size with
    | some size => do
      setSize client fid size
      statOn client fid
    | none => statOn client fid

/-- A file that takes effect when it is closed is not truncated; `attrs.rs:80`. -/
def ignoresZeroTruncate (nodeid : Nat) (size : Option UInt64) : Op S Bool :=
  if size = some 0 then do
    let node ← view (·.node nodeid)
    pure (hasCloseCommitMode node.stat)
  else pure false

/-- The size that is set, and the handle it is set through; `attrs.rs:74`. -/
def setattrOnce (nodeid : Nat) (size : Option UInt64) (fh : Option Nat) : Op S Reply := do
  let ignored ← ignoresZeroTruncate nodeid size
  let (client, fid) ← setattrFid nodeid fh
  let stat ← resize nodeid client fid size ignored
  let _ ← attempt (alter fun table => (table.updateStat nodeid stat).map (((), ·)))
  pure (.attr stat)

/-- `attrs.rs:49`. -/
def setattr (nodeid : Nat) (size : Option UInt64) (fh : Option Nat) : Op S Reply := do
  match ← attempt (setattrOnce nodeid size fh) with
  | .ok reply => pure reply
  | .error e =>
    if isNamespaceShapeError e then do
      recoverNamespaceShape nodeid
      if fh.isSome then throw ⟨ESTALE, text "setattr file handle is stale after namespace refresh"⟩
      else setattrOnce nodeid size fh
    else throw e

/-! ### Opening and closing, `ops/io` -/

/-- The mode that a file is opened with, with a second try that does not truncate; `open.rs:75`. -/
def openOrFallBack (fid : Fid) (mode : UInt8) : Op S UInt8 := do
  match ← attempt (openFid fid mode) with
  | .ok () => pure mode
  | .error e =>
    if mode &&& Mode.OTRUNC ≠ 0 ∧ ¬ isTransportError e ∧ ¬ isNamespaceShapeError e then do
      let mode := mode &&& ~~~Mode.OTRUNC
      match ← attempt (openFid fid mode) with
      | .ok () => pure mode
      | .error e => do
        release fid
        throw e
    else do
      release fid
      throw e

/-- `open.rs:45`; the mode is the one of `flags_to_9p_mode`. -/
def openOnce (nodeid : Nat) (mode : UInt8) (isDirOpen : Bool) : Op S Reply := do
  let node ← view (·.node nodeid)
  if isDirOpen && !isDir node.stat then pure (.error ENOTDIR)
  else do
    let fid ← freshNodeFid nodeid
    let mode := if isDirOpen then Mode.OREAD else mode
    let closeCommitTarget := hasCloseCommitMode node.stat
    let mode := if closeCommitTarget then mode &&& ~~~Mode.OTRUNC else mode
    let mode ← openOrFallBack fid mode
    let client ← ask fun b => .ok b.client
    let writeOnRelease : Bool := !isDirOpen && mode ≠ Mode.OREAD
    let handle ← change (·.openHandle
      { client := client
        fid := if isDirOpen then none else some fid
        openMode := mode
        isDir := isDirOpen
        writeOnRelease := writeOnRelease
        closeCommit := writeOnRelease && closeCommitTarget
        closeCommitFlushed := false
        bytesWritten := 0
        directory := if isDirOpen then some ⟨client, fid, 0, [], false⟩ else none })
    pure (.opened handle)

/-- What cannot be tried again, or may have happened, ends in an error of input or output. -/
def ioError (message : String) : Error := { errno := EIO, message := text message }

/-- `open.rs:15`. -/
def openNode (nodeid : Nat) (mode : UInt8) (isDirOpen : Bool) : Op S Reply := do
  match ← attempt (openOnce nodeid mode isDirOpen) with
  | .ok reply => pure reply
  | .error e =>
    if isNamespaceShapeError e then do
      recoverNamespaceShape nodeid
      openOnce nodeid mode isDirOpen
    else if isTransportError e then do
      reconnect
      if isDirOpen || mode = Mode.OREAD then openOnce nodeid mode isDirOpen
      else throw (ioError "open failed during reconnect; mutating opens are not replayed")
    else throw e

/-- The clunk that closes a file; `write.rs:165`. -/
def closeHandle (nodeid : Nat) (handle : Handle) (fid : Fid) : Op S Unit := do
  let invalidates := handle.writeOnRelease && handle.closeCommit
  match ← attempt (clunkOn handle.client fid) with
  | .ok () => if invalidates then invalidateNamespaceBindingsAfterReply else pure ()
  | .error e =>
    if !handle.writeOnRelease then pure ()
    else if isTransportError e then do
      reconnect
      throw (ioError "release failed during reconnect; close result is unknown")
    else if isNamespaceShapeError e then
      if invalidates then invalidateNamespaceBindingsAfterReply
      else do
        recoverNamespaceShape nodeid
        throw (ioError "release failed during namespace refresh; close result is unknown")
    else throw e

/-- `write.rs:136`. -/
def releaseHandle (nodeid fh : Nat) : Op S Reply := do
  match ← change (·.removeHandle fh) with
  | none => pure .empty
  | some handle =>
    if handle.isDir then do
      match handle.directory with
      | some stream => do
        let _ ← attempt (clunkOn stream.client stream.fid)
        pure .empty
      | none => pure .empty
    else if handle.closeCommitFlushed then pure .empty
    else
      match handle.fid with
      | none => pure .empty
      | some fid => do
        closeHandle nodeid handle fid
        pure .empty

/-- Change a handle. -/
def changeHandle (fh : Nat) (f : Handle → Handle) : Op S Unit := alter fun table => do
  let handle ← table.handle fh
  .ok ((), { table with handles := table.handles.insert fh (f handle) })

/-- The clunk that commits what was written; `misc.rs:73`. -/
def commitHandle (nodeid : Nat) (handle : Handle) (fid : Fid) : Op S Unit := do
  match ← attempt (clunkOn handle.client fid) with
  | .ok () => pure ()
  | .error e =>
    if isTransportError e then do
      reconnect
      throw (ioError "flush failed during reconnect; close result is unknown")
    else if isNamespaceShapeError e then
      if handle.closeCommit then pure ()
      else do
        recoverNamespaceShape nodeid
        throw (ioError "flush failed during namespace refresh; close result is unknown")
    else throw e

/-- `misc.rs:57`. -/
def flush (nodeid fh : Nat) : Op S Reply := do
  let handle ← view (·.handle fh)
  if handle.writeOnRelease && handle.closeCommit && !handle.closeCommitFlushed &&
      0 < handle.bytesWritten then do
    let fid ← ask fun _ => handle.requireFid
    commitHandle nodeid handle fid
    changeHandle fh fun handle => { handle with closeCommitFlushed := true }
    invalidateNamespaceBindingsAfterReply
    pure .empty
  else pure .empty

/-! ### Reading and writing -/

/-- The bytes that a handle's fid reads. -/
def readOn (client : Nat) (fid : Fid) (offset count : Nat) : Op S Bytes := do
  match ← callOn client (.read fid offset count) with
  | .data bytes => pure bytes
  | .failed e => throw e
  | _ => throw (unexpected "read")

/-- `reopen.rs:106`. -/
def sameFileIdentity (candidate expected : Qid) : Bool :=
  candidate.path = expected.path && candidate.qtype = expected.qtype

/-- The entries of an open directory, which are read to their end. -/
def readOpenDirectory (fid : Fid) : Op S (List DirEntry) := do
  match ← call (.read fid 0 0) with
  | .entries entries _ => pure entries
  | .failed e => throw e
  | _ => throw (unexpected "read")

/-- `reopen.rs:70`. -/
def readDirectoryForRelocation (parentFid : Fid) : Op S (List DirEntry) := do
  let fid ← cloneFid parentFid
  match ← attempt (openFid fid Mode.OREAD) with
  | .error e => do
    release fid
    throw e
  | .ok () => do
    let result ← attempt (readOpenDirectory fid)
    release fid
    ask fun _ => result

/-- `reopen.rs:87`. -/
def uniqueRelocatedEntry (entries : List DirEntry) (expected : Qid) : Except Error DirEntry :=
  match entries.filter fun entry => sameFileIdentity entry.stat.qid expected with
  | [] => .error ⟨ENOENT, text "open read handle identity is absent from its parent"⟩
  | [entry] => .ok entry
  | _ => .error ⟨EPROTO, text "open read handle identity is ambiguous within its parent"⟩

/-- The entry of the parent that the identity has moved to; `reopen.rs:38`. -/
def relocate (parentFid : Fid) (expected : Qid) : Op S (Fid × Stat) := do
  let entries ← readDirectoryForRelocation parentFid
  let entry ← ask fun _ => uniqueRelocatedEntry entries expected
  let fid ← walkOne parentFid entry.name
  let stat ← statOr [fid] fid
  if sameFileIdentity stat.qid expected then pure (fid, stat)
  else do
    release fid
    throw ⟨ESTALE, text "relocated read handle identity changed during reopen"⟩

/-- `reopen.rs:26`. -/
def relocatedReadBinding (nodeid : Nat) : Op S (Fid × Stat) := do
  let node ← view (·.node nodeid)
  refuseIf (node.path = []) ⟨ESTALE, text "root read handle cannot relocate"⟩
  let parentFid ← walkFromSource node.path.dropLast
  let result ← attempt (relocate parentFid node.qid)
  release parentFid
  ask fun _ => result

/-- A fid for the node of a handle, wherever it is now; `reopen.rs:10`. -/
def readBinding (nodeid : Nat) : Op S (Fid × Stat) := do
  match ← attempt (boundNodeFid nodeid) with
  | .ok nodeFid => do
    let node ← view (·.node nodeid)
    let fid ← cloneFid nodeFid
    pure (fid, node.stat)
  | .error e => if e.errno = ENOENT then relocatedReadBinding nodeid else throw e

/-- `reopen.rs:9`. -/
def reopenReadBinding (nodeid : Nat) : Op S (Fid × Stat) := do
  let (fid, stat) ← readBinding nodeid
  match ← attempt (openFid fid Mode.OREAD) with
  | .ok () => pure (fid, stat)
  | .error e => do
    release fid
    throw e

/-- Put another fid under a handle and clunk the one it had. -/
def rebindHandle (fh : Nat) (fid : Fid) (admits : Handle → Bool) (message : String)
    (f : Handle → Handle) : Op S Unit := do
  let client ← ask fun b => .ok b.client
  let old ← attempt (view (·.handle fh))
  match old with
  | .error e => do
    release fid
    throw e
  | .ok old =>
    if admits old then do
      changeHandle fh fun handle => { f handle with client := client, fid := some fid }
      let oldFid ← ask fun _ => old.requireFid
      let _ ← attempt (clunkOn old.client oldFid)
    else do
      release fid
      throw ⟨ESTALE, text message⟩

/-- `read.rs:110`. -/
def readFromReopenedHandle (nodeid fh offset count : Nat) : Op S Bytes := do
  let (fid, _) ← reopenReadBinding nodeid
  rebindHandle fh fid (fun handle => !handle.isDir && !handle.writeOnRelease)
    "file handle is not read-only replayable" id
  let client ← ask fun b => .ok b.client
  readOn client fid offset count

/-- `read.rs:174`. -/
def readIsKnownEof (knownLength offset : Nat) : Bool := 0 < knownLength && knownLength ≤ offset

/-- `read.rs:178`. -/
def readCount (knownLength offset requested : Nat) : Nat :=
  if knownLength = 0 then requested else min requested (min (knownLength - offset) (2 ^ 32 - 1))

/-- Read through a handle, and through a new fid if that fails; `read.rs:73`. -/
def readWithRecovery (nodeid fh : Nat) (handle : Handle) (fid : Fid) (offset count : Nat) :
    Op S Bytes := do
  let replayable := !handle.isDir && !handle.writeOnRelease
  match ← attempt (readOn handle.client fid offset count) with
  | .ok bytes => pure bytes
  | .error e =>
    if isTransportError e then do
      reconnect
      if replayable then readFromReopenedHandle nodeid fh offset count
      else throw ⟨ESTALE, text "file handle is not replayable"⟩
    else if isNamespaceShapeError e then do
      recoverNamespaceShape nodeid
      if replayable then readFromReopenedHandle nodeid fh offset count
      else throw ⟨ESTALE, text "file handle is not replayable"⟩
    else throw e

/-- `read.rs:53`, without the read cache. -/
def read (nodeid fh offset size : Nat) : Op S Reply := do
  let node ← view (·.node nodeid)
  if readIsKnownEof node.stat.length.toNat offset then pure (.data [])
  else do
    let count := readCount node.stat.length.toNat offset size
    let handle ← view (·.handle fh)
    let fid ← ask fun _ => handle.requireFid
    let bytes ← readWithRecovery nodeid fh handle fid offset count
    pure (.data bytes)

/-- `read.rs:18`. -/
def readlink (nodeid : Nat) : Op S Reply := do
  let node ← view (·.node nodeid)
  if !isSymlink node.stat then pure (.error EINVAL)
  else do
    let fid ← boundNodeFid nodeid
    let client ← ask fun b => .ok b.client
    match ← attempt (readOn client fid 0 (min (max node.stat.length.toNat 1) (1024 * 1024))) with
    | .ok bytes => pure (.data bytes)
    | .error e =>
      if isTransportError e then do
        reconnect
        throw ⟨ESTALE, text "symlink handle is stale after 9P reconnect"⟩
      else if isNamespaceShapeError e then do
        recoverNamespaceShape nodeid
        throw ⟨ESTALE, text "symlink handle is stale after namespace refresh"⟩
      else throw e

/-- A file whose name makes every write to it one to a control file; `namespace_change.rs:28`. -/
def isControlFileName (path : Path) : Bool := path.getLast? = some (utf8 "ctl")

def writeOn (client : Nat) (fid : Fid) (offset : Nat) (data : Bytes) : Op S Nat := do
  match ← callOn client (.write fid offset data) with
  | .written count => pure count
  | .failed e => throw e
  | _ => throw (unexpected "write")

/-- `write.rs:105`. -/
def writeFromReopenedWriteHandle (nodeid fh offset : Nat) (data : Bytes) : Op S Nat := do
  let nodeFid ← boundNodeFid nodeid
  let fid ← cloneFid nodeFid
  match ← attempt (openFid fid Mode.OWRITE) with
  | .error e => do
    release fid
    throw e
  | .ok () => do
    rebindHandle fh fid (fun handle => !handle.isDir && handle.writeOnRelease)
      "file handle is not write replayable" fun handle =>
        { handle with closeCommitFlushed := false }
    let client ← ask fun b => .ok b.client
    writeOn client fid offset data

/-- Write through a handle; only a write to a control file is made again; `write.rs:44`. -/
def writeWithRecovery (nodeid fh : Nat) (path : Path) (handle : Handle) (fid : Fid) (offset : Nat)
    (data : Bytes) : Op S Nat := do
  match ← attempt (writeOn handle.client fid offset data) with
  | .ok count => pure count
  | .error e =>
    if isTransportError e then do
      reconnect
      throw (ioError "write failed during reconnect and was not replayed")
    else if isNamespaceShapeError e then do
      recoverNamespaceShape nodeid
      if offset = 0 ∧ (handle.closeCommit ∨ isControlFileName path) then
        writeFromReopenedWriteHandle nodeid fh offset data
      else throw (ioError "write failed during namespace refresh and was not replayed")
    else throw e

/-- `handles.rs:162`. -/
def noteHandleWrite (fh count : Nat) : Op S Unit :=
  if 0 < count then
    changeHandle fh fun handle =>
      { handle with bytesWritten := min (handle.bytesWritten + count) (2 ^ 64 - 1) }
  else pure ()

/-- `write.rs:18`. -/
def write (nodeid fh offset : Nat) (data : Bytes) : Op S Reply := do
  let node ← view (·.node nodeid)
  let handle ← view (·.handle fh)
  let fid ← ask fun _ => handle.requireFid
  let count ← writeWithRecovery nodeid fh node.path handle fid offset data
  noteHandleWrite fh count
  if isControlFileName node.path && !handle.closeCommit then do
    invalidateNamespaceBindingsAfterReply
    pure (.written count)
  else pure (.written count)

/-! ### Directories, `ops/dir.rs` -/

/-- `dir.rs:91`. -/
def reopenDirectoryHandle (nodeid fh : Nat) : Op S Unit := do
  let nodeFid ← boundNodeFid nodeid
  let fid ← cloneFid nodeFid
  match ← attempt (openFid fid Mode.OREAD) with
  | .error e => do
    release fid
    throw e
  | .ok () => do
    let client ← ask fun b => .ok b.client
    let replaced ← attempt (alter fun table => do
      let handle ← table.handle fh
      if !handle.isDir then .error ⟨ESTALE, text "file handle is not a directory"⟩
      else
        match handle.directory with
        | none => .error ⟨ESTALE, text "directory handle has no incremental stream"⟩
        | some stream =>
          .ok (stream, { table with handles := table.handles.insert fh { handle with
            client := client, directory := some { stream with client := client, fid := fid } } }))
    match replaced with
    | .error e => do
      release fid
      throw e
    | .ok stream => do
      let _ ← attempt (clunkOn stream.client stream.fid)

/-- `util.rs:115`. -/
def direntSize (nameLength : Nat) : Nat := (24 + nameLength + 7) / 8 * 8

/-- `dir.rs:347`, with the size of a `FuseEntryOut`. -/
def direntplusSize (nameLength : Nat) : Nat := 128 + direntSize nameLength

/-- `dir.rs:260`. -/
inductive DirectoryEncoding where
  | plain
  | plus

/-- The size of an entry, `dir.rs:287`. -/
def DirectoryEncoding.size : DirectoryEncoding → Nat → Nat
  | plain => direntSize
  | plus => direntplusSize

/-- The length of the name at an index, behind the two special ones. -/
def nameLength (entries : List DirEntry) (index : Nat) : Nat :=
  match index with
  | 0 => 1
  | 1 => 2
  | index + 2 => (entries[index]?.map (·.name.length)).getD 0

/-- The names from an index on fill the buffer; `dir.rs:265`. -/
def fillsBuffer (encoding : DirectoryEncoding) (entries : List DirEntry) (size : Nat) :
    Nat → Nat → Nat → Bool
  | 0, _, _ => false
  | left + 1, index, used =>
    let used' := used + encoding.size (nameLength entries index)
    size ≤ used' || fillsBuffer encoding entries size left (index + 1) used'

def directoryBufferSatisfied (encoding : DirectoryEncoding) (offset size : Nat)
    (entries : List DirEntry) : Bool :=
  size = 0 || offset < entries.length + 2 &&
    fillsBuffer encoding entries size (entries.length + 2 - offset) offset 0

/-- Read on until the buffer is full or the directory ends; `dir.rs:130`. The reads are counted
down from a number that comes with the request. -/
def fillStream (encoding : DirectoryEncoding) (fh offset size : Nat) :
    Nat → Op S (List DirEntry)
  | 0 => throw ⟨ETIMEDOUT, text "9P response timeout"⟩
  | reads + 1 => do
    let handle ← view (·.handle fh)
    match handle.directory with
    | none => throw ⟨ESTALE, text "directory handle has no incremental stream"⟩
    | some stream =>
      if stream.eof || directoryBufferSatisfied encoding offset size stream.entries then
        pure stream.entries
      else do
        let keep (stream : DirectoryStream) : Op S Unit :=
          changeHandle fh fun handle => { handle with directory := some stream }
        match ← callOn stream.client (.read stream.fid stream.remoteOffset
          (min (max size 4096) 65536)) with
        | .entries entries length =>
          if length = 0 then do
            keep { stream with eof := true }
            pure stream.entries
          else do
            keep { stream with
              remoteOffset := min (stream.remoteOffset + length) (2 ^ 64 - 1)
              entries := stream.entries ++ entries }
            fillStream encoding fh offset size reads
        | .failed e => throw e
        | _ => throw (unexpected "read")

/-- `dir.rs:113`. -/
def directoryEntriesForRead (encoding : DirectoryEncoding) (fh offset size reads : Nat) :
    Op S (List DirEntry) := do
  let handle ← view (·.handle fh)
  refuseIf (!handle.isDir) ⟨ENOTDIR, text "file handle is not a directory"⟩
  fillStream encoding fh offset size reads

/-- `dir.rs:67`. -/
def directoryEntriesForReadWithRecovery (encoding : DirectoryEncoding)
    (nodeid fh offset size reads : Nat) : Op S (List DirEntry) := do
  match ← attempt (directoryEntriesForRead encoding fh offset size reads) with
  | .ok entries => pure entries
  | .error e =>
    if isTransportError e then do
      reconnect
      reopenDirectoryHandle nodeid fh
      directoryEntriesForRead encoding fh offset size reads
    else if isNamespaceShapeError e then do
      recoverNamespaceShape nodeid
      reopenDirectoryHandle nodeid fh
      directoryEntriesForRead encoding fh offset size reads
    else throw e

/-- `dir.rs:210`. -/
def specialDirentplusEntry (parent : Nat) (name : Bytes) (up : Bool) : Op S DirentPlus := do
  let nodeid ← view fun table => if up then table.parentNodeid parent else .ok parent
  let node ← view (·.node nodeid)
  pure ⟨nodeid, node.generation, node.stat, name, true⟩

/-- The entry at an index; `dir.rs:178`. -/
def direntplus (parent : Nat) (entries : List DirEntry) : Nat → Op S (Option DirentPlus)
  | 0 => do
    let entry ← specialDirentplusEntry parent (utf8 ".") false
    pure (some entry)
  | 1 => do
    let entry ← specialDirentplusEntry parent (utf8 "..") true
    pure (some entry)
  | index + 2 =>
    match entries[index]? with
    | none => pure none
    | some entry => do
      let nodeid ← alter (·.insertLookupLazy parent entry.stat entry.name)
      let node ← view (·.node nodeid)
      pure (some ⟨nodeid, node.generation, entry.stat, entry.name, false⟩)

/-- `dir.rs:155`, from an index on with the bytes used so far. -/
def encodeDirentsPlus (parent size : Nat) (entries : List DirEntry) :
    Nat → Nat → Nat → Op S (List DirentPlus)
  | 0, _, _ => pure []
  | left + 1, index, used => do
    let used' := used + direntplusSize (nameLength entries index)
    if size < used' then pure []
    else do
      match ← direntplus parent entries index with
      | none => pure []
      | some entry => do
        let rest ← encodeDirentsPlus parent size entries left (index + 1) used'
        pure (entry :: rest)

/-- The loop of `dir.rs:325`, with the bytes used so far. -/
def encodeDirents (size : Nat) : List Dirent → Nat → List Dirent
  | [], _ => []
  | entry :: rest, used =>
    let used' := used + direntSize entry.name.length
    if size < used' then [] else entry :: encodeDirents size rest used'

/-- `dir.rs:251`. -/
def specialDirentInodes (parent : Nat) : Op S (UInt64 × UInt64) :=
  view fun table => do
    let dot ← table.node parent
    let dotdot ← table.node (← table.parentNodeid parent)
    .ok (qidToInode dot.qid, qidToInode dotdot.qid)

/-- `dir.rs:27`. -/
def readdir (nodeid fh offset size reads : Nat) : Op S Reply := do
  let entries ← directoryEntriesForReadWithRecovery .plain nodeid fh offset size reads
  let (dot, dotdot) ← specialDirentInodes nodeid
  let logical := ⟨dot, utf8 ".", true⟩ :: ⟨dotdot, utf8 "..", true⟩ ::
    entries.map fun entry => ⟨qidToInode entry.stat.qid, entry.name, isDir entry.stat⟩
  pure (.dirents (encodeDirents size (logical.drop offset) 0))

/-- `dir.rs:47`. -/
def readdirplus (nodeid fh offset size reads : Nat) : Op S Reply := do
  let entries ← directoryEntriesForReadWithRecovery .plus nodeid fh offset size reads
  let out ← encodeDirentsPlus nodeid size entries (entries.length + 2 - offset) offset 0
  pure (.direntsPlus out)

/-! ### Changes, `change_feed.rs` -/

/-- `change_feed.rs:186`, behind the checks of scope and source. -/
inductive MountedChange where
  | root
  | created (path : Path)
  | modified (path : Path)
  | removed (path : Path)
  | renamed (old new : Path)

/-- `change_feed.rs:164`. -/
def applyNamespaceChange : MountedChange → Op S Reply
  | .root => do
    let _ ← change (·.markPathBindingsStale)
    pure .empty
  | .created path | .modified path => do
    let stale ← change (·.markPathStale path)
    clunkStaleBindings stale
    pure .empty
  | .removed path => do
    let stale ← change (·.markPathPrefixStale path)
    clunkStaleBindings stale
    pure .empty
  | .renamed old new => do
    let stale ← change (·.markPathPrefixStale old)
    let stale' ← change (·.markPathPrefixStale new)
    clunkStaleBindings (stale ++ stale')
    pure .empty

/-! ### Requests, `dispatch.rs:171` -/

/-- The requests that reach the table, and the changes that the feed reports. -/
inductive Request where
  | lookup (parent : Nat) (name : Bytes)
  | forget (counts : List (Nat × Nat))
  | getattr (nodeid : Nat)
  | setattr (nodeid : Nat) (size : Option UInt64) (fh : Option Nat)
  | readlink (nodeid : Nat)
  | «open» (nodeid : Nat) (mode : UInt8)
  | opendir (nodeid : Nat)
  | read (nodeid fh offset size : Nat)
  | write (nodeid fh offset : Nat) (data : Bytes)
  | flush (nodeid fh : Nat)
  | release (nodeid fh : Nat)
  | readdir (nodeid fh offset size reads : Nat)
  | readdirplus (nodeid fh offset size reads : Nat)
  | create (parent : Nat) (name : Bytes) (perm : UInt32) (mode : UInt8)
  | mkdir (parent : Nat) (name : Bytes) (mode : UInt32)
  | mknod (parent : Nat) (name : Bytes) (mode : UInt32)
  | unlink (parent : Nat) (name : Bytes)
  | rmdir (parent : Nat) (name : Bytes)
  | rename (oldParent newParent : Nat) (oldName newName : Bytes)
  | changed (change : MountedChange)

def dispatch : Request → Op S Reply
  | .lookup parent name => lookup parent name
  | .forget counts => forget counts
  | .getattr nodeid => getattr nodeid
  | .setattr nodeid size fh => setattr nodeid size fh
  | .readlink nodeid => readlink nodeid
  | .open nodeid mode => openNode nodeid mode false
  | .opendir nodeid => openNode nodeid Mode.OREAD true
  | .read nodeid fh offset size => read nodeid fh offset size
  | .write nodeid fh offset data => write nodeid fh offset data
  | .flush nodeid fh => flush nodeid fh
  | .release nodeid fh => releaseHandle nodeid fh
  | .readdir nodeid fh offset size reads => readdir nodeid fh offset size reads
  | .readdirplus nodeid fh offset size reads => readdirplus nodeid fh offset size reads
  | .create parent name perm mode => createFile parent name perm mode
  | .mkdir parent name mode => mkdir parent name mode
  | .mknod parent name mode => mknod parent name mode
  | .unlink parent name => removeChild parent name
  | .rmdir parent name => removeChild parent name
  | .rename oldParent newParent oldName newName => rename oldParent newParent oldName newName
  | .changed change => applyNamespaceChange change

/-- An error is told to the kernel by its number. -/
def serve (request : Request) (b : Bridge S) : Reply × Bridge S :=
  match (dispatch request).exec b with
  | (.ok reply, b) => (reply, b)
  | (.error e, b) => (.error e.errno, b)

end R9P.Fuse
