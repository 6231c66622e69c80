import R9P.Base.Checked
import R9P.Base.Forest
import R9P.Base.Separated
import R9P.Base.TreeMap
import R9P.Server.Session
import Mathlib.Data.List.DropRight

/-!
# The tree of a front

Library `Front`. `crates/front/src/model.rs`: the nodes an owner publishes, the index of their
qid paths, how often fids refer to them, and the subtrees that were taken out of the tree while
fids still refer to them. The queues of the relays are not part of this state. Node ids are a
counter that never wraps; texts are their bytes, and names are parts of texts, so that the lossy
decoding of a name is the name.
-/

namespace R9P.Front
open Std Base Wire Server

def SLASH : UInt8 := 0x2f

/-- `model.rs:12`. -/
def ROOT_ID : Nat := 0

/-- `model.rs:33`. -/
inductive ChildDirectoryRemoval where
  | forbidden
  | relayToOwner
  deriving DecidableEq, Repr

/-- `model.rs:26`. -/
structure ChildDirectoryResolver where
  resolutionPrefix : Bytes
  readPrefix : Bytes
  removal : ChildDirectoryRemoval
  deriving DecidableEq, Repr

/-- `model.rs:19`. -/
structure DirectoryBody where
  children : ExtTreeMap Bytes Nat
  readRelay : Option Bytes
  childResolver : Option ChildDirectoryResolver

def DirectoryBody.default : DirectoryBody := ⟨∅, none, none⟩

/-- `model.rs:63`. -/
structure LogBody where
  entries : List Bytes
  start : Nat
  retained : Nat
  deriving DecidableEq, Repr

namespace LogBody

/-- `model.rs:70`. -/
def new (bytes : Bytes) : LogBody := ⟨[bytes], 0, bytes.length⟩

/-- `model.rs:85`, and `model.rs:81` at offset 0. -/
def emptyAt (start : Nat) : LogBody := ⟨[], start, 0⟩

/-- `model.rs:93`. -/
def «end» (self : LogBody) : Nat := (self.start + self.retained) % 2 ^ 64

/-- The loop of `model.rs:100`. Offsets are 64 bits wide. -/
def dropOldest (capacity : Nat) : List Bytes → Nat → Nat → LogBody
  | oldest :: next :: entries, start, retained =>
    if retained > capacity then
      dropOldest capacity (next :: entries) ((start + oldest.length) % 2 ^ 64)
        (retained - oldest.length)
    else ⟨oldest :: next :: entries, start, retained⟩
  | entries, start, retained => ⟨entries, start, retained⟩

/-- `model.rs:97`. -/
def append (self : LogBody) (bytes : Bytes) (capacity : Nat) : LogBody :=
  dropOldest capacity (self.entries ++ [bytes]) self.start (self.retained + bytes.length)

/-- The loop of `model.rs:111`: bytes still to be passed over, and what is read so far. -/
def readFrom (count : Nat) : List Bytes → Nat → Bytes → Bytes
  | [], _, out => out
  | entry :: entries, skip, out =>
    if skip ≥ entry.length then readFrom count entries (skip - entry.length) out
    else
      let out := out ++ (entry.drop skip).take (min (entry.length - skip) (count - out.length))
      if out.length = count then out else readFrom count entries 0 out

/-- `model.rs:108`. -/
def read (self : LogBody) (offset count : Nat) : Bytes :=
  readFrom count self.entries (offset - self.start) []

end LogBody

/-- `model.rs:52`. -/
inductive Body where
  | dir (directory : DirectoryBody)
  | file (bytes : Bytes)
  | log (log : LogBody)
  | intakeNew (id : Nat)
  | rpc (path : Bytes)
  | readRelay (path : Bytes)
  | snapshotReadRelay (path : Bytes)
  | writeRelay (path : Bytes)

namespace Body

def isDir : Body → Bool
  | dir _ => true
  | _ => false

/-- `Body::File(_) | Body::WriteRelay(_)`. -/
def isWritten : Body → Bool
  | file _ => true
  | writeRelay _ => true
  | _ => false

/-- The children of a directory; no other node has any. -/
def children : Body → ExtTreeMap Bytes Nat
  | dir directory => directory.children
  | _ => ∅

/-- The ids among the children. -/
def childIds (body : Body) : List Nat := body.children.toList.map Prod.snd

/-- Change the children of a directory. -/
def mapChildren (f : ExtTreeMap Bytes Nat → ExtTreeMap Bytes Nat) : Body → Body
  | dir directory => .dir { directory with children := f directory.children }
  | body => body

end Body

/-- `model.rs:177`. -/
structure PushedEntryMetadata where
  qidPath : UInt64
  qidVersion : UInt32
  generation : UInt64
  mtime : UInt32
  length : UInt64
  visibilityClass : Bytes
  freshnessRef : Bytes
  wakeToken : Bytes
  deriving DecidableEq, Repr

/-- `model.rs:242`. -/
structure Node where
  name : Bytes
  parent : Nat
  qidPath : UInt64
  version : UInt32
  generation : UInt64
  pushedMtime : Option UInt32
  pushedLength : Option UInt64
  visibilityClass : Option Bytes
  freshnessRef : Option Bytes
  wakeToken : Option Bytes
  createRelay : Option Bytes
  writeRelay : Option Bytes
  removeRelay : Option Bytes
  wstatRelay : Option Bytes
  body : Body

namespace Node

/-- Change the children of a node that is a directory. -/
def mapChildren (self : Node) (f : ExtTreeMap Bytes Nat → ExtTreeMap Bytes Nat) : Node :=
  { self with body := self.body.mapChildren f }

/-- A node nothing was pushed for. -/
def placed (name : Bytes) (parent : Nat) (qidPath : UInt64) (body : Body) : Node where
  name := name
  parent := parent
  qidPath := qidPath
  version := 0
  generation := 0
  pushedMtime := none
  pushedLength := none
  visibilityClass := none
  freshnessRef := none
  wakeToken := none
  createRelay := none
  writeRelay := none
  removeRelay := none
  wstatRelay := none
  body := body

/-- The fields of `model.rs:433` that pushed metadata sets. -/
def withMetadata (self : Node) (metadata : PushedEntryMetadata) : Node :=
  { self with
    version := metadata.qidVersion
    generation := metadata.generation
    pushedMtime := some metadata.mtime
    pushedLength := some metadata.length
    visibilityClass := some metadata.visibilityClass
    freshnessRef := some metadata.freshnessRef
    wakeToken := some metadata.wakeToken }

/-- A node that is pushed with its metadata. -/
def pushed (name : Bytes) (parent : Nat) (metadata : PushedEntryMetadata) (body : Body) : Node :=
  (placed name parent metadata.qidPath body).withMetadata metadata

end Node

/-- `model.rs:297`. -/
structure PrincipalRoot where
  root : Nat
  rootPath : Bytes
  principalId : Bytes
  anames : ExtTreeSet Bytes

/-- `model.rs:260`, without the queues of the relays. -/
structure State where
  nodes : ExtTreeMap Nat Node
  qidIndex : ExtTreeMap UInt64 Nat
  fidReferences : ExtTreeMap Nat Nat
  detachedRoots : ExtTreeSet Nat
  nextId : Nat
  intakes : ExtTreeMap Nat Bytes
  removeRelayPrefixes : ExtTreeSet Bytes
  renameRelayRoots : ExtTreeMap Nat Bytes
  principalRootsRequired : Bool
  principalRoots : ExtTreeMap Bytes PrincipalRoot
  logCapacity : Nat

/-! ### Paths -/

/-- `str::trim_matches('/')`. -/
def trimMatches (path : Bytes) : Bytes :=
  (path.dropWhile (· == SLASH)).rdropWhile (· == SLASH)

/-- `model.rs:1312`. -/
def splitPath (path : Bytes) : Result (List Bytes) :=
  if (trimMatches path).isEmpty then .error (.fromStatic EPERM)
  else .ok ((trimMatches path).splitOn SLASH)

/-- `model.rs:1323`. -/
def canonicalRootPath (path : Bytes) : Bytes :=
  if (trimMatches path).isEmpty then utf8 "/" else trimMatches path

/-- `model.rs:1332`. -/
def canonicalPathSegments (path : Bytes) : Result (List Bytes) :=
  if path = utf8 "/" then .ok [] else splitPath path

/-- `model.rs:1340`. -/
def normaliseRequestPrefix (path : Bytes) : Result Bytes :=
  if (trimMatches path).isEmpty then .error (.fromStatic EPERM) else .ok (trimMatches path)

/-- `model.rs:1348`. -/
def createdChildPath (parentPath name : Bytes) : Bytes :=
  if parentPath = utf8 "/" then SLASH :: name
  else parentPath.rdropWhile (· == SLASH) ++ SLASH :: name

/-- `model.rs:1356`. -/
def openAllowed (node : Node) (mode : UInt8) : Bool :=
  if !Mode.isValid mode || mode &&& Mode.ORCLOSE != 0 then false
  else if node.writeRelay.isSome && mode &&& Mode.ACCESS_MASK == Mode.OWRITE then true
  else if mode &&& Mode.OTRUNC != 0 then false
  else
    match node.body with
    | .dir _ | .file _ | .log _ | .readRelay _ | .snapshotReadRelay _ =>
      mode &&& Mode.ACCESS_MASK == Mode.OREAD
    | .intakeNew _ | .writeRelay _ => mode &&& Mode.ACCESS_MASK == Mode.OWRITE
    | .rpc _ => mode &&& Mode.ACCESS_MASK == Mode.ORDWR

namespace State

/-- `model.rs:320`. -/
def new : State where
  nodes := (∅ : ExtTreeMap Nat Node).insert ROOT_ID
    (.placed (utf8 "/") ROOT_ID 0 (.dir .default))
  qidIndex := (∅ : ExtTreeMap UInt64 Nat).insert 0 ROOT_ID
  fidReferences := ∅
  detachedRoots := ∅
  nextId := 1
  intakes := ∅
  removeRelayPrefixes := ∅
  renameRelayRoots := ∅
  principalRootsRequired := false
  principalRoots := ∅
  logCapacity := 2 ^ 20

/-! ### Nodes -/

/-- `model.rs:378`. -/
def node (self : State) (id : Nat) : Result Node := okOr self.nodes[id]? ENOENT

/-- `model.rs:384`. -/
def qidFor (self : State) (id : Nat) : Result Qid := do
  let node ← self.node id
  pure ⟨if node.body.isDir then QTDIR else 0, node.version, node.qidPath⟩

/-- The loop of `model.rs:395`. The candidates only grow, so that each is met once. -/
def availableFrom (self : State) : Nat → UInt64 → Result UInt64
  | 0, _ => .error (.fromStatic "qid path space exhausted")
  | fuel + 1, candidate =>
    if self.qidIndex.contains candidate then
      if candidate = 0xffffffffffffffff then .error (.fromStatic "qid path space exhausted")
      else self.availableFrom fuel (candidate + 1)
    else .ok candidate

/-- `model.rs:393`. -/
def nextAvailableQidPath (self : State) (start : UInt64) : Result UInt64 :=
  self.availableFrom (self.qidIndex.size + 1) start

/-- `model.rs:403`. -/
def nodeIdForQidPath (self : State) (qidPath : UInt64) : Result Nat :=
  okOr self.qidIndex[qidPath]? ENOENT

/-- `if let Some(node) = self.nodes.get_mut(&id)`. -/
def updateNode (self : State) (id : Nat) (f : Node → Node) : State :=
  { self with
    nodes :=
      match self.nodes[id]? with
      | some node => self.nodes.insert id (f node)
      | none => self.nodes }

/-- Enter a child under a name, if the parent is a directory. -/
def linkChild (self : State) (parent : Nat) (name : Bytes) (id : Nat) : State :=
  self.updateNode parent (·.mapChildren (·.insert name id))

/-- Strike a name out, if the parent is a directory. -/
def unlinkChild (self : State) (parent : Nat) (name : Bytes) : State :=
  self.updateNode parent (·.mapChildren (·.erase name))

/-- `model.rs:410`. -/
def replaceQidPath (id : Nat) (qidPath : UInt64) : Checked State Error Unit := do
  .ask fun self =>
    match self.qidIndex[qidPath]? with
    | some owner =>
      if owner ≠ id then .error (.fromStatic "qid path already in use") else .ok ()
    | none => .ok ()
  let node ← .ask (·.node id)
  if node.qidPath ≠ qidPath then
    .update fun self =>
      { self with qidIndex := (self.qidIndex.erase node.qidPath).insert qidPath id }.updateNode id
        fun node => { node with qidPath := qidPath }

/-- `model.rs:427`. -/
def applyPushedMetadata (id : Nat) (metadata : PushedEntryMetadata) : Checked State Error Unit := do
  replaceQidPath id metadata.qidPath
  .update fun self => self.updateNode id (·.withMetadata metadata)

/-- A new node, its entry in the index and its name in its parent. -/
def added (self : State) (node : Node) : State :=
  { self with
    nextId := self.nextId + 1
    nodes := self.nodes.insert self.nextId node
    qidIndex := self.qidIndex.insert node.qidPath self.nextId }.linkChild node.parent node.name
      self.nextId

/-- The insertions of `model.rs:497`, `model.rs:579`, `model.rs:655` and `model.rs:730`. -/
def addNode (node : Node) : Checked State Error Nat :=
  .ofExec fun self => (.ok self.nextId, self.added node)

/-- A new node with the next free qid path. -/
def addPlaced (name : Bytes) (parent : Nat) (body : Body) : Checked State Error Nat := do
  let qidPath ← .ask fun self => self.nextAvailableQidPath (.ofNat self.nextId)
  addNode (.placed name parent qidPath body)

/-- The child of a directory under a name, `Err(ENOTDIR)` for anything else. -/
def childIn (self : State) (parent : Nat) (name : Bytes) : Result (Option Nat) := do
  let node ← self.node parent
  match node.body with
  | .dir directory => .ok directory.children[name]?
  | _ => .error (.fromStatic ENOTDIR)

/-- `model.rs:483`. -/
def ensureDir (parent : Nat) (name : Bytes) : Checked State Error Nat := do
  match ← .ask (·.childIn parent name) with
  | some existing =>
    let found ← .ask (·.node existing)
    if found.body.isDir then pure existing else throw (.fromStatic ENOTDIR)
  | none => addPlaced name parent (.dir .default)

/-- The loop over the directories of a path. -/
def ensureDirs : Nat → List Bytes → Checked State Error Nat
  | current, [] => pure current
  | current, segment :: segments => do
    let next ← ensureDir current segment
    ensureDirs next segments

/-- `model.rs:528`. -/
def ensurePathDir (path : Bytes) : Checked State Error Nat := do
  let segments ← .ask fun _ => splitPath path
  ensureDirs ROOT_ID segments

/-- `split_last`: the directories of a path and its last name. -/
def splitLast (segments : List Bytes) : Result (List Bytes × Bytes) :=
  match segments.getLast? with
  | some last => .ok (segments.dropLast, last)
  | none => .error (.fromStatic EPERM)

/-- What `place` does to a node that is there already, `model.rs:553`. -/
def placeOver (id : Nat) (body : Body) : Checked State Error Nat := do
  let capacity ← .ask fun self => .ok self.logCapacity
  let node ← .ask (·.node id)
  match node.body, body with
  | .file _, .file bytes =>
    .update fun self => self.updateNode id fun node =>
      { node with version := node.version + 1, body := .file bytes }
    pure id
  | .log existing, .log incoming =>
    let appended := incoming.entries.foldl (fun log entry => log.append entry capacity) existing
    .update fun self => self.updateNode id fun node =>
      { node with version := node.version + 1, body := .log appended }
    pure id
  | _, _ => throw (.fromStatic EPERM)

/-- `model.rs:537`. -/
def place (path : Bytes) (body : Body) : Checked State Error Nat := do
  let segments ← .ask fun _ => splitPath path
  let (dirs, last) ← .ask fun _ => splitLast segments
  let parent ← ensureDirs ROOT_ID dirs
  match ← .ask (·.childIn parent last) with
  | some id => placeOver id body
  | none => addPlaced last parent body

/-! ### Subtrees that were taken out -/

/-- The loop of `model.rs:1070`. A chain of parents passes each node once. -/
def detachedFrom (self : State) : Nat → Nat → Bool
  | 0, _ => false
  | fuel + 1, current =>
    self.detachedRoots.contains current ||
      match self.nodes[current]? with
      | some node => node.parent ≠ current && self.detachedFrom fuel node.parent
      | none => false

/-- `model.rs:1068`. -/
def nodeIsDetached (self : State) (id : Nat) : Bool := self.detachedFrom (self.nodes.size + 1) id

/-- The recursion of `model.rs:1092`. A path down the tree passes each node once. -/
def referenceBelow (self : State) : Nat → Nat → Bool
  | 0, _ => false
  | fuel + 1, id =>
    self.fidReferences.contains id ||
      match self.nodes[id]? with
      | some node => node.body.childIds.any (self.referenceBelow fuel)
      | none => false

/-- `model.rs:1092`. -/
def subtreeHasFidReference (self : State) (id : Nat) : Bool :=
  self.referenceBelow (self.nodes.size + 1) id

/-- A node and its entries go, `model.rs:1143`. -/
def freeNode (self : State) (id : Nat) (node : Node) : State :=
  { self with
    nodes := self.nodes.erase id
    detachedRoots := self.detachedRoots.erase id
    fidReferences := self.fidReferences.erase id
    qidIndex := self.qidIndex.erase node.qidPath
    intakes := self.intakes.erase id
    renameRelayRoots := self.renameRelayRoots.erase id }

/-- The recursion of `model.rs:1142`. Every level takes a node away. -/
def freeBelow : Nat → Nat → State → State
  | 0, _, self => self
  | fuel + 1, id, self =>
    match self.nodes[id]? with
    | none => self
    | some node =>
      node.body.childIds.foldl (fun self child => freeBelow fuel child self)
        (self.freeNode id node)

/-- `model.rs:1142`. -/
def removeNodeRecursive (self : State) (id : Nat) : State := freeBelow self.nodes.size id self

/-- `model.rs:1084`. -/
def retireDetachedSubtree (self : State) (id : Nat) : State :=
  if self.subtreeHasFidReference id then
    { self with detachedRoots := self.detachedRoots.insert id }
  else self.removeNodeRecursive id

/-- `model.rs:1104`. -/
def collectUnreferencedDetachedSubtrees (self : State) : State :=
  (self.detachedRoots.toList.filter fun id => !self.subtreeHasFidReference id).foldl
    (fun self id =>
      { self with detachedRoots := self.detachedRoots.erase id }.removeNodeRecursive id)
    self

/-- The loop of `model.rs:1277`: the names from below `root` down to a node. -/
def namesFrom (self : State) (root : Nat) : Nat → Nat → Result (List Bytes)
  | 0, _ => .error (.fromStatic ENOENT)
  | fuel + 1, current =>
    if current = root then .ok []
    else if current = ROOT_ID then .error (.fromStatic EPERM)
    else do
      let node ← self.node current
      let above ← self.namesFrom root fuel node.parent
      pure (above ++ [node.name])

/-- `model.rs:1274`. -/
def pathRelativeTo (self : State) (id root : Nat) : Result Bytes := do
  let segments ← self.namesFrom root (self.nodes.size + 1) id
  pure (if segments.isEmpty then utf8 "/" else separated SLASH segments)

/-! ### Pushed nodes -/

/-- What a node must be like to be put back, `model.rs:770`. -/
def mayReattach (self : State) (id : Nat) (path : Bytes) (bodyMatches : Body → Bool) :
    Result Unit := do
  if !self.nodeIsDetached id then .error (.fromStatic "qid path already in use")
  let relative ← self.pathRelativeTo id ROOT_ID
  if relative ≠ SLASH :: trimMatches path then .error (.fromStatic "qid path already in use")
  let node ← self.node id
  if !bodyMatches node.body then .error (.fromStatic "qid path already in use")

/-- A node leaves the children of its parent, if it is among them. -/
def unlinkNode (self : State) (id : Nat) (node : Node) : State :=
  match self.nodes[node.parent]? with
  | some old =>
    if old.body.children[node.name]? = some id then self.unlinkChild node.parent node.name else self
  | none => self

/-- A node moves to another parent, `model.rs:777`. -/
def moveNode (self : State) (id : Nat) (node : Node) (parent : Nat) (name : Bytes) : State :=
  let moved := (self.unlinkNode id node).updateNode id fun node =>
    { node with parent := parent, name := name }
  let linked := moved.linkChild parent name id
  { linked with detachedRoots := linked.detachedRoots.erase id }

/-- `model.rs:759`. -/
def reattachDetachedPushedNode (path : Bytes) (parent : Nat) (name : Bytes) (qidPath : UInt64)
    (bodyMatches : Body → Bool) : Checked State Error (Option Nat) := do
  match ← .ask fun self => .ok self.qidIndex[qidPath]? with
  | none => pure none
  | some id =>
    .ask (·.mayReattach id path bodyMatches)
    let node ← .ask (·.node id)
    .update fun self => (self.moveNode id node parent name).collectUnreferencedDetachedSubtrees
    pure (some id)

/-- The common body of `model.rs:607` and `model.rs:685`: which bodies the push goes with, what
it makes of one that is there, and the body of a new node. -/
def placePushed (path : Bytes) (metadata : PushedEntryMetadata) (bodyMatches : Body → Bool)
    (settle : Body → Body) (fresh : Body) : Checked State Error Nat := do
  let segments ← .ask fun _ => splitPath path
  let (dirs, last) ← .ask fun _ => splitLast segments
  let parent ← ensureDirs ROOT_ID dirs
  match ← .ask (·.childIn parent last) with
  | some id =>
    let node ← .ask (·.node id)
    .refuseIf (!bodyMatches node.body) (.fromStatic EPERM)
    applyPushedMetadata id metadata
    .update fun self => self.updateNode id fun node => { node with body := settle node.body }
    pure id
  | none =>
    match ← reattachDetachedPushedNode path parent last metadata.qidPath bodyMatches with
    | some id =>
      applyPushedMetadata id metadata
      .update fun self => self.updateNode id fun node => { node with body := settle node.body }
      pure id
    | none => addNode (.pushed last parent metadata fresh)

/-- `model.rs:607`. -/
def placePushedFile (path bytes : Bytes) (metadata : PushedEntryMetadata) :
    Checked State Error Nat :=
  placePushed path metadata Body.isWritten (fun _ => .file bytes) (.file bytes)

/-- `model.rs:685`. -/
def placePushedDirectory (path : Bytes) (metadata : PushedEntryMetadata) :
    Checked State Error Nat := do
  .refuseIf (metadata.length ≠ 0) (.fromStatic "pushed directory length must be zero")
  placePushed path metadata Body.isDir id (.dir .default)

/-- A remove relay joins the prefixes that owners answer for. -/
def noteRemoveRelay (removeRelay : Option Bytes) (self : State) : State :=
  match removeRelay with
  | some relay => { self with removeRelayPrefixes := self.removeRelayPrefixes.insert relay }
  | none => self

/-- `model.rs:804`. -/
def insertPushedChildDirectory (parent : Nat) (name : Bytes) (metadata : PushedEntryMetadata)
    (readPrefix : Bytes) (removal : ChildDirectoryRemoval) : Checked State Error Nat := do
  .refuseIf (metadata.length ≠ 0) (.fromStatic "pushed directory length must be zero")
  let removeRelay ← .ask fun self =>
    match removal with
    | .forbidden => (.ok none : Result (Option Bytes))
    | .relayToOwner => do
      if !(ByteArray.mk name.toArray).validateUTF8 then
        .error (.fromStatic "child directory name must be UTF-8")
      let parentPath ← self.pathRelativeTo parent ROOT_ID
      pure (some (trimMatches (createdChildPath parentPath name)))
  match ← .ask (·.childIn parent name) with
  | some existing =>
    let found ← .ask (·.node existing)
    if found.body.isDir then
      .update (noteRemoveRelay removeRelay)
      .update fun self => self.updateNode existing fun node =>
        { node with removeRelay := removeRelay.or node.removeRelay }
      pure existing
    else throw (.fromStatic ENOTDIR)
  | none =>
    .ask fun self =>
      if self.qidIndex.contains metadata.qidPath then
        .error (.fromStatic "qid path already in use")
      else .ok ()
    let id ← addNode
      { Node.pushed name parent metadata (.dir ⟨∅, some readPrefix, none⟩) with
        removeRelay := removeRelay }
    .update (noteRemoveRelay removeRelay)
    pure id

/-- What `model.rs:911` does to a node that is there already. -/
def createOver (id : Nat) (qid : Qid) (generation : UInt64) (createPrefix : Bytes) :
    Checked State Error Nat := do
  let node ← .ask (·.node id)
  .ask fun self =>
    if node.qidPath ≠ qid.path ∨ self.qidIndex[qid.path]? ≠ some id then
      .error (.fromStatic "create relay existing node identity mismatch")
    else .ok ()
  .refuseIf (qid.isDir ≠ node.body.isDir)
    (.fromStatic "create relay existing node kind mismatch")
  .update fun self => self.updateNode id fun node =>
    if qid.isDir then { node with version := qid.version, generation := generation }
    else
      { node with
        version := qid.version
        generation := generation
        writeRelay := some createPrefix
        body := .writeRelay createPrefix }
  pure id

/-- `model.rs:890`. -/
def insertCreatedRelayNode (parentId : Nat) (name : Bytes) (qid : Qid) (generation : UInt64)
    (createPrefix : Bytes) : Checked State Error Nat := do
  let segments ← .ask fun _ => splitPath name
  let (dirs, leaf) ← .ask fun _ => splitLast segments
  let parent ← ensureDirs parentId dirs
  match ← .ask (·.childIn parent leaf) with
  | some id => createOver id qid generation createPrefix
  | none =>
    .ask fun self =>
      if self.qidIndex.contains qid.path then .error (.fromStatic "qid path already in use")
      else .ok ()
    addNode
      { Node.placed leaf parent qid.path
          (if qid.isDir then .dir .default else .writeRelay createPrefix) with
        version := qid.version
        generation := generation
        writeRelay := if qid.isDir then none else some createPrefix }

/-! ### Removal -/

/-- The loop of `model.rs:1164` and `model.rs:1184`. -/
def descend (self : State) : Nat → List Bytes → Result (Option Nat)
  | current, [] => .ok (some current)
  | current, segment :: segments => do
    match ← self.childIn current segment with
    | some next => self.descend next segments
    | none => .ok none

/-- `model.rs:1158`. -/
def lookupOptionalPath (self : State) (path : Bytes) : Result (Option Nat) :=
  if (trimMatches path).isEmpty then .ok (some ROOT_ID)
  else self.descend ROOT_ID ((trimMatches path).splitOn SLASH)

/-- `model.rs:1178`. -/
def lookupPath (self : State) (path : Bytes) : Result Nat := do
  okOr (← self.lookupOptionalPath path) ENOENT

/-- A subtree is taken out of the tree, as in `model.rs:984` and `model.rs:1029`. -/
def detach (self : State) (parent : Nat) (name : Bytes) (id : Nat) : State :=
  (self.unlinkChild parent name).retireDetachedSubtree id

/-- `model.rs:975`. -/
def removeSubtreeIfExists (path : Bytes) : Checked State Error Unit := do
  match ← .ask (·.lookupOptionalPath path) with
  | none => pure ()
  | some id =>
    .refuseIf (id = ROOT_ID) (.fromStatic EPERM)
    let node ← .ask (·.node id)
    .update (·.detach node.parent node.name id)

/-- The loop of `model.rs:1017`. A chain of parents passes each node once. -/
def climb (self : State) (root : Nat) : Nat → Nat → Result (List Nat)
  | 0, _ => .error (.fromStatic EPERM)
  | fuel + 1, current =>
    if current = root then .ok [current]
    else do
      let node ← self.node current
      if node.parent = current then .error (.fromStatic EPERM)
      let above ← self.climb root fuel node.parent
      pure (current :: above)

/-- The nodes that a path keeps, `model.rs:1009`. -/
def retainedBy (self : State) (root : Nat) (rootSegments : List Bytes) (path : Bytes) :
    Result (List Nat) := do
  let segments ← canonicalPathSegments (canonicalRootPath path)
  if !rootSegments.isPrefixOf segments then .error (.fromStatic EPERM)
  let current ← self.lookupPath (canonicalRootPath path)
  self.climb root (self.nodes.size + 1) current

/-- The recursion of `model.rs:1117`. A path down the tree passes each node once. -/
def staleBelow (self : State) (retained : List Nat) : Nat → Nat → Result (List (Nat × Bytes × Nat))
  | 0, _ => .ok []
  | fuel + 1, parent => do
    let node ← self.node parent
    match node.body with
    | .dir directory =>
      let parts ← directory.children.toList.mapM fun (name, child) => do
        if child ∈ retained then
          let found ← self.node child
          if found.body.isDir then self.staleBelow retained fuel child else pure []
        else pure [(parent, name, child)]
      pure parts.flatten
    | _ => .error (.fromStatic ENOTDIR)

/-- `model.rs:1117`. -/
def collectStaleSubtrees (self : State) (parent : Nat) (retained : List Nat) :
    Result (List (Nat × Bytes × Nat)) :=
  self.staleBelow retained (self.nodes.size + 1) parent

/-- The subtrees that `model.rs:995` takes out, found before it changes anything. -/
def staleSubtrees (self : State) (rootPath : Bytes) (paths : List Bytes) :
    Result (List (Nat × Bytes × Nat)) := do
  let rootSegments ← canonicalPathSegments (canonicalRootPath rootPath)
  let root ← self.lookupPath (canonicalRootPath rootPath)
  let node ← self.node root
  if !node.body.isDir then .error (.fromStatic ENOTDIR)
  let retained ← paths.mapM (self.retainedBy root rootSegments)
  self.collectStaleSubtrees root (root :: retained.flatten)

/-- Principals whose root is gone lose their entry, `model.rs:1041`. -/
def prunePrincipalRoots (self : State) : State :=
  { self with
    principalRoots := self.principalRoots.filter fun _ binding =>
      self.nodes.contains binding.root }

/-- `model.rs:995`. -/
def retainSubtreePaths (rootPath : Bytes) (paths : List Bytes) : Checked State Error Bool := do
  let stale ← .ask (·.staleSubtrees rootPath paths)
  .update fun self => stale.foldl (fun self (parent, name, id) => self.detach parent name id) self
  .update fun self => if stale.isEmpty then self else self.prunePrincipalRoots
  pure (!stale.isEmpty)

/-! ### Fids -/

/-- `model.rs:1050`. -/
def retainFidNode (id : Nat) : Checked State Error Unit := do
  let _ ← .ask (·.node id)
  .update fun self =>
    { self with fidReferences := self.fidReferences.insert id (self.fidReferences.getD id 0 + 1) }

/-- `model.rs:1056`. -/
def releaseFidNode (id : Nat) : Checked State Error Unit := do
  let references ← .ask fun self =>
    okOr self.fidReferences[id]? "front fid node reference missing"
  .update fun self =>
    { self with
      fidReferences :=
        if references > 1 then self.fidReferences.insert id (references - 1)
        else self.fidReferences.erase id }.collectUnreferencedDetachedSubtrees

/-- `model.rs:1296`. -/
def attachRootFor (self : State) (uname aname : Bytes) : Result Nat :=
  if !self.principalRootsRequired then .ok ROOT_ID
  else do
    let root ← okOr self.principalRoots[uname]? "principal root unavailable"
    if root.anames.contains (utf8 "*") || root.anames.contains aname then .ok root.root
    else .error (.fromStatic "principal aname unavailable")

end State

end R9P.Front
