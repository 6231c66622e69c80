import R9P.Front.Model

/-!
# The owner of a front

Library `Front`. `crates/front/src/front.rs`: the operations with which an owner publishes nodes
and takes them back. Each holds the lock on the state from its beginning to its end. What the
operations do to the queues of the relays is not modelled, and neither are those that do nothing
else.
-/

namespace R9P.Front
open Base Wire Server

namespace State

/-- `front.rs:47`. -/
def set (path bytes : Bytes) : Checked State Error Unit := do
  let _ ← place path (.file bytes)

/-- `front.rs:53`. -/
def setPushedFile (path bytes : Bytes) (metadata : PushedEntryMetadata) :
    Checked State Error Unit := do
  let _ ← placePushedFile path bytes metadata

/-- `front.rs:65`. -/
def setPushedDirectory (path : Bytes) (metadata : PushedEntryMetadata) :
    Checked State Error Unit := do
  let _ ← placePushedDirectory path metadata

/-- `front.rs:110`. -/
def appendEvent (path bytes : Bytes) : Checked State Error Unit := do
  let _ ← place path (.log (.new bytes))

/-- `front.rs:117`. -/
def setLogCapacity (capacity : Nat) : Checked State Error Unit :=
  .update fun self => { self with logCapacity := max capacity 1 }

/-- `front.rs:138`. -/
def registerIntake (path : Bytes) : Checked State Error Unit := do
  .refuseIf (trimMatches path).isEmpty (.fromStatic EPERM)
  let id ← place (trimMatches path ++ utf8 "/new") (.intakeNew 0)
  .update fun self =>
    { self.updateNode id fun node => { node with body := .intakeNew id } with
      intakes := self.intakes.insert id (trimMatches path) }

/-- `front.rs:153`. -/
def registerRpc (path : Bytes) : Checked State Error Unit := do
  .refuseIf (trimMatches path).isEmpty (.fromStatic EPERM)
  let _ ← place (trimMatches path) (.rpc (trimMatches path))

/-- The common body of `front.rs:163` and `front.rs:204`: a relay of one kind at a path. -/
def registerRelay (isKind : Body → Bool) (body : Bytes → Body) (path : Bytes) :
    Checked State Error Nat := do
  let trimmed ← .ask fun _ => normaliseRequestPrefix path
  match ← .ask (·.lookupOptionalPath trimmed) with
  | some id =>
    let node ← .ask (·.node id)
    .refuseIf (!isKind node.body) (.fromStatic EPERM)
    .update fun self => self.updateNode id fun node => { node with body := body trimmed }
    pure id
  | none => place trimmed (body trimmed)

def isReadRelay : Body → Bool
  | .readRelay _ => true
  | _ => false

def isSnapshotReadRelay : Body → Bool
  | .snapshotReadRelay _ => true
  | _ => false

/-- `front.rs:163`. -/
def registerReadRelay (path : Bytes) : Checked State Error Unit := do
  let _ ← registerRelay isReadRelay .readRelay path

/-- `front.rs:181`. -/
def registerReadRelayWithMetadata (path : Bytes) (metadata : PushedEntryMetadata) :
    Checked State Error Unit := do
  let id ← registerRelay isReadRelay .readRelay path
  applyPushedMetadata id metadata

/-- `front.rs:204`. -/
def registerSnapshotReadRelay (path : Bytes) : Checked State Error Unit := do
  let _ ← registerRelay isSnapshotReadRelay .snapshotReadRelay path

/-- A directory at a path gets a relay, `front.rs:222`, `front.rs:290` and
`child_directory_resolution.rs:5`. -/
def registerOnDir (path : Bytes) (f : Node → Node) : Checked State Error Unit := do
  let id ← ensurePathDir path
  let node ← .ask (·.node id)
  .refuseIf (!node.body.isDir) (.fromStatic ENOTDIR)
  .update fun self => self.updateNode id f

/-- Change the body of a directory. -/
def onDirectory (f : DirectoryBody → DirectoryBody) (node : Node) : Node :=
  match node.body with
  | .dir directory => { node with body := .dir (f directory) }
  | _ => node

/-- `front.rs:222`. -/
def registerDirectoryReadRelay (path : Bytes) : Checked State Error Unit := do
  let trimmed ← .ask fun _ => normaliseRequestPrefix path
  registerOnDir trimmed (onDirectory fun directory => { directory with readRelay := some trimmed })

/-- A write relay is told its path anew; other bodies stay. -/
def retarget (path : Bytes) : Body → Body
  | .writeRelay _ => .writeRelay path
  | body => body

/-- `front.rs:236`. -/
def registerWriteRelay (path : Bytes) : Checked State Error Unit := do
  let trimmed ← .ask fun _ => normaliseRequestPrefix path
  match ← .ask (·.lookupOptionalPath trimmed) with
  | some id =>
    let node ← .ask (·.node id)
    .refuseIf node.body.isDir (.fromStatic EPERM)
    .update fun self => self.updateNode id fun node =>
      { node with writeRelay := some trimmed, body := retarget trimmed node.body }
  | none =>
    let id ← place trimmed (.writeRelay trimmed)
    .update fun self => self.updateNode id fun node => { node with writeRelay := some trimmed }

/-- `front.rs:262`. -/
def registerRemoveRelay (path : Bytes) : Checked State Error Unit := do
  let trimmed ← .ask fun _ => normaliseRequestPrefix path
  let id ← .ask (·.lookupPath trimmed)
  .update fun self =>
    { self with removeRelayPrefixes := self.removeRelayPrefixes.insert trimmed }.updateNode id
      fun node => { node with removeRelay := some trimmed }

/-- `front.rs:273`. -/
def registerWstatRelay (path : Bytes) : Checked State Error Unit := do
  let trimmed ← .ask fun _ => normaliseRequestPrefix path
  let id ← .ask (·.lookupPath trimmed)
  .update fun self => self.updateNode id fun node => { node with wstatRelay := some trimmed }

/-- `front.rs:284`. -/
def registerCreateRelay (path : Bytes) : Checked State Error Unit := do
  let trimmed ← .ask fun _ => normaliseRequestPrefix path
  registerOnDir trimmed fun node => { node with createRelay := some trimmed }

/-- `front.rs:301`. -/
def registerLog (path : Bytes) : Checked State Error Unit := do
  .refuseIf (trimMatches path).isEmpty (.fromStatic EPERM)
  let _ ← place (trimMatches path) (.log (.emptyAt 0))

/-- `front.rs:317`. -/
def registerLogAt (path : Bytes) (start : Nat) : Checked State Error Unit := do
  .refuseIf (trimMatches path).isEmpty (.fromStatic EPERM)
  let existing ← .ask (·.lookupOptionalPath (trimMatches path))
  .refuseIf existing.isSome (.fromStatic EPERM)
  let _ ← place (trimMatches path) (.log (.emptyAt start))

/-- `child_directory_resolution.rs:5`. -/
def registerChildDirectoryResolver (path resolutionPrefix readPrefix : Bytes)
    (removal : ChildDirectoryRemoval) : Checked State Error Unit := do
  .refuseIf (trimMatches path).isEmpty (.fromStatic EPERM)
  let resolutionPrefix ← .ask fun _ => normaliseRequestPrefix resolutionPrefix
  let readPrefix ← .ask fun _ => normaliseRequestPrefix readPrefix
  .refuseIf (resolutionPrefix = readPrefix)
    (.fromStatic "child resolution and directory read prefixes must be distinct")
  registerOnDir (trimMatches path) (onDirectory fun directory =>
    { directory with childResolver := some ⟨resolutionPrefix, readPrefix, removal⟩ })

/-- The directory of a rename relay, `rename.rs:9`. -/
def renameRoot (path : Bytes) : Checked State Error Nat :=
  if (trimMatches path).isEmpty then pure ROOT_ID else ensurePathDir (trimMatches path)

/-- `rename.rs:5`. -/
def registerRenameRelay (path requestPrefix : Bytes) : Checked State Error Unit := do
  let requestPrefix ← .ask fun _ => normaliseRequestPrefix requestPrefix
  let root ← renameRoot path
  let node ← .ask (·.node root)
  .refuseIf (!node.body.isDir) (.fromStatic ENOTDIR)
  .update fun self =>
    { self with renameRelayRoots := self.renameRelayRoots.insert root requestPrefix }

/-- What the table of roots becomes, `front.rs:366`. -/
def principalEntry (existing : Option PrincipalRoot) (root : Nat)
    (principalId aname rootPath : Bytes) : Result PrincipalRoot :=
  match existing with
  | some existing =>
    if existing.rootPath ≠ rootPath then .error (.fromStatic "principal root path mismatch")
    else if existing.principalId ≠ principalId then .error (.fromStatic "principal id mismatch")
    else .ok { existing with root := root, anames := existing.anames.insert aname }
  | none => .ok ⟨root, rootPath, principalId, (∅ : Std.ExtTreeSet Bytes).insert aname⟩

/-- `front.rs:345`. -/
def setPrincipalClassAname (uname principalId aname rootPath : Bytes) :
    Checked State Error Unit := do
  .refuseIf (uname.isEmpty || principalId.isEmpty) (.fromStatic EPERM)
  .refuseIf aname.isEmpty (.fromStatic EPERM)
  let root ← .ask (·.lookupPath rootPath)
  let node ← .ask (·.node root)
  .refuseIf (!node.body.isDir) (.fromStatic ENOTDIR)
  .update fun self => { self with principalRootsRequired := true }
  let entry ← .ask fun self => principalEntry self.principalRoots[uname]? root principalId aname
    (canonicalRootPath rootPath)
  .update fun self => { self with principalRoots := self.principalRoots.insert uname entry }

/-- `front.rs:396`. -/
def retainPrincipalRoots (unames : List Bytes) : Checked State Error Unit :=
  .update fun self =>
    { self with principalRoots := self.principalRoots.filter fun uname _ => unames.contains uname }

/-- The end of a request that a prefix takes in, `front.rs:554`. -/
def completeIntake (path requestId bytes : Bytes) : Checked State Error Unit := do
  .ask fun self =>
    if (self.intakes.toList.map Prod.snd).contains (trimMatches path) then .ok ()
    else .error (.fromStatic ENOENT)
  set (trimMatches path ++ SLASH :: requestId ++ utf8 "/result") bytes

/-- The undoing of a create that was not published, `front.rs:694`. -/
def undoCreate (qidPath : UInt64) : Checked State Error Unit := do
  let id ← .ask (·.nodeIdForQidPath qidPath)
  let path ← .ask (·.pathRelativeTo id ROOT_ID)
  removeSubtreeIfExists path

/-- The undoing of a create whose request is gone, `front.rs:719`. -/
def undoCreateAt (parent : Nat) (name : Bytes) : Checked State Error Unit := do
  let path ← .ask (·.pathRelativeTo parent ROOT_ID)
  removeSubtreeIfExists (createdChildPath path name)

end State

/-- The operations of an owner that change the tree or the table of principals. -/
inductive OwnerOp where
  | set (path bytes : Bytes)
  | setPushedFile (path bytes : Bytes) (metadata : PushedEntryMetadata)
  | setPushedDirectory (path : Bytes) (metadata : PushedEntryMetadata)
  | removeSubtreeIfExists (path : Bytes)
  | retainSubtreePaths (rootPath : Bytes) (paths : List Bytes)
  | appendEvent (path bytes : Bytes)
  | setLogCapacity (capacity : Nat)
  | registerIntake (path : Bytes)
  | registerRpc (path : Bytes)
  | registerReadRelay (path : Bytes)
  | registerReadRelayWithMetadata (path : Bytes) (metadata : PushedEntryMetadata)
  | registerSnapshotReadRelay (path : Bytes)
  | registerDirectoryReadRelay (path : Bytes)
  | registerWriteRelay (path : Bytes)
  | registerRemoveRelay (path : Bytes)
  | registerWstatRelay (path : Bytes)
  | registerCreateRelay (path : Bytes)
  | registerLog (path : Bytes)
  | registerLogAt (path : Bytes) (start : Nat)
  | registerChildDirectoryResolver (path resolutionPrefix readPrefix : Bytes)
      (removal : ChildDirectoryRemoval)
  | registerRenameRelay (path requestPrefix : Bytes)
  | setPrincipalClassAname (uname principalId aname rootPath : Bytes)
  | retainPrincipalRoots (unames : List Bytes)
  | completeIntake (path requestId bytes : Bytes)
  | completeCreate (parent : Nat) (name : Bytes) (qid : Qid) (generation : UInt64)
      (createPrefix : Bytes)
  | undoCreate (qidPath : UInt64)
  | undoCreateAt (parent : Nat) (name : Bytes)

namespace OwnerOp
open State

/-- What an operation does. -/
def run : OwnerOp → Checked State Error Unit
  | set path bytes => State.set path bytes
  | setPushedFile path bytes metadata => State.setPushedFile path bytes metadata
  | setPushedDirectory path metadata => State.setPushedDirectory path metadata
  | removeSubtreeIfExists path => State.removeSubtreeIfExists path
  | retainSubtreePaths rootPath paths => do
    let _ ← State.retainSubtreePaths rootPath paths
  | appendEvent path bytes => State.appendEvent path bytes
  | setLogCapacity capacity => State.setLogCapacity capacity
  | registerIntake path => State.registerIntake path
  | registerRpc path => State.registerRpc path
  | registerReadRelay path => State.registerReadRelay path
  | registerReadRelayWithMetadata path metadata =>
    State.registerReadRelayWithMetadata path metadata
  | registerSnapshotReadRelay path => State.registerSnapshotReadRelay path
  | registerDirectoryReadRelay path => State.registerDirectoryReadRelay path
  | registerWriteRelay path => State.registerWriteRelay path
  | registerRemoveRelay path => State.registerRemoveRelay path
  | registerWstatRelay path => State.registerWstatRelay path
  | registerCreateRelay path => State.registerCreateRelay path
  | registerLog path => State.registerLog path
  | registerLogAt path start => State.registerLogAt path start
  | registerChildDirectoryResolver path resolutionPrefix readPrefix removal =>
    State.registerChildDirectoryResolver path resolutionPrefix readPrefix removal
  | registerRenameRelay path requestPrefix => State.registerRenameRelay path requestPrefix
  | setPrincipalClassAname uname principalId aname rootPath =>
    State.setPrincipalClassAname uname principalId aname rootPath
  | retainPrincipalRoots unames => State.retainPrincipalRoots unames
  | completeIntake path requestId bytes => State.completeIntake path requestId bytes
  | completeCreate parent name qid generation createPrefix => do
    let _ ← insertCreatedRelayNode parent name qid generation createPrefix
  | undoCreate qidPath => State.undoCreate qidPath
  | undoCreateAt parent name => State.undoCreateAt parent name

end OwnerOp

end R9P.Front
