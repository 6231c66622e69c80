import R9P.Base.Text
import R9P.Base.TreeMap
import R9P.Wire.Data

/-!
# The node table of a mount

Library `Fuse`. `fuse/src/node.rs` and `fuse/src/node/handles.rs`: the nodes that the kernel knows
by number, with the path, the fid and the last stat of each, and the open handles. A node is found
by its number, by its path or by its qid. Directory caches are left out (only tests fill them); of
the freshness of a stat only the mark that it is stale is kept.
-/

namespace R9P.Fuse
open Std Base Wire

/-- `fuse/src/error.rs:6`. -/
structure Error where
  errno : Nat
  message : Text
  deriving DecidableEq

def ENOENT : Nat := 2
def EIO : Nat := 5
def EBADF : Nat := 9
def EAGAIN : Nat := 11
def EEXIST : Nat := 17
def ENOTDIR : Nat := 20
def EISDIR : Nat := 21
def EINVAL : Nat := 22
def EPIPE : Nat := 32
def EPROTO : Nat := 71
def ECONNABORTED : Nat := 103
def ECONNRESET : Nat := 104
def ENOTCONN : Nat := 107
def ESHUTDOWN : Nat := 108
def ETIMEDOUT : Nat := 110
def ESTALE : Nat := 116

abbrev Path := List Bytes

def ROOT_NODEID : Nat := 1

/-- One more, as far as 64 bits go. -/
def saturatingSucc (n : Nat) : Nat := min (n + 1) (2 ^ 64 - 1)

/-! ### Stats -/

/-- `session/src/cache.rs:299`. -/
def isDir (stat : Stat) : Bool := stat.qid.qtype &&& QTDIR != 0 || stat.mode &&& DMDIR != 0

/-- `session/src/cache.rs:303`. -/
def isSymlink (stat : Stat) : Bool :=
  stat.qid.qtype &&& QTSYMLINK != 0 || stat.mode &&& DMSYMLINK != 0

/-- The low 55 bits of the path under the type; `node.rs:466`. -/
def qidToInode (qid : Qid) : UInt64 :=
  (qid.path &&& 0x7fffffffffffff) ||| (qid.qtype.toUInt64 <<< (55 : UInt64))

/-- `node.rs:470`. -/
inductive Kind where
  | dir
  | symlink
  | regular
  deriving DecidableEq

def modeKind (stat : Stat) : Kind :=
  if isDir stat then .dir else if isSymlink stat then .symlink else .regular

/-- What two stats share when they are of one inode; `node.rs:480`. -/
def inodeIdentity (stat : Stat) : UInt64 × Kind := (qidToInode stat.qid, modeKind stat)

/-! ### Nodes -/

/-- `node.rs:19`. -/
structure Node where
  fid : Option Fid
  path : Path
  qid : Qid
  stat : Stat
  stale : Bool
  generation : Nat
  lookups : Nat
  needsRebind : Bool

namespace Node

/-- `node.rs:480`. -/
def sameInodeIdentity (self : Node) (stat : Stat) : Bool :=
  qidToInode self.qid = qidToInode stat.qid ∧ modeKind self.stat = modeKind stat

/-- What every new stat does to a node. -/
def observe (self : Node) (stat : Stat) : Node :=
  { self with qid := stat.qid, stat := stat, stale := false, needsRebind := false }

/-- A new stat that starts a new generation if it is of another inode. -/
def renew (self : Node) (stat : Stat) : Node :=
  { self.observe stat with
    generation := if self.sameInodeIdentity stat then self.generation
      else saturatingSucc self.generation }

/-- A node that has just been looked up. -/
def fresh (fid : Option Fid) (path : Path) (stat : Stat) : Node where
  fid := fid
  path := path
  qid := stat.qid
  stat := stat
  stale := false
  generation := 1
  lookups := 1
  needsRebind := false

/-- A node whose binding cannot be relied on. -/
def markStale (self : Node) : Node := { self with fid := none, stale := true, needsRebind := true }

end Node

/-! ### Handles, `handles.rs` -/

structure DirEntry where
  name : Bytes
  stat : Stat

/-- `handles.rs:8`; a client is known by the number of connections made before it. -/
structure DirectoryStream where
  client : Nat
  fid : Fid
  remoteOffset : Nat
  entries : List DirEntry
  eof : Bool

/-- `handles.rs:17`. -/
structure Handle where
  client : Nat
  fid : Option Fid
  openMode : UInt8
  isDir : Bool
  writeOnRelease : Bool
  closeCommit : Bool
  closeCommitFlushed : Bool
  bytesWritten : Nat
  directory : Option DirectoryStream

/-- `node.rs:46`. -/
structure NodeTable where
  nodes : ExtTreeMap Nat Node
  handles : ExtTreeMap Nat Handle
  nextNodeid : Nat
  nextHandle : Nat

/-- `node.rs:32`. -/
structure InsertedNode where
  nodeid : Nat
  clunkFid : Option Fid

/-- `node.rs:38`. -/
structure StaleBinding where
  nodeid : Nat
  parentNodeid : Option Nat
  name : Bytes
  fid : Option Fid

namespace NodeTable

/-- `node.rs:54`. -/
def new (rootFid : Fid) (rootStat : Stat) : NodeTable where
  nodes := ExtTreeMap.empty.insert ROOT_NODEID (.fresh (some rootFid) [] rootStat)
  handles := ∅
  nextNodeid := ROOT_NODEID + 1
  nextHandle := 1

/-- The error for a number that no node has. -/
def unknownNodeid (nodeid : Nat) : Error := ⟨ESTALE, text "unknown nodeid " ++ Text.decimal nodeid⟩

/-- `node.rs:78`. -/
def node (self : NodeTable) (nodeid : Nat) : Except Error Node :=
  match self.nodes[nodeid]? with
  | some node => .ok node
  | none => .error (unknownNodeid nodeid)

/-- Change a node; `node.rs:84`. -/
def nodeMut (self : NodeTable) (nodeid : Nat) (change : Node → Node) : Except Error NodeTable := do
  let node ← self.node nodeid
  .ok { self with nodes := self.nodes.insert nodeid (change node) }

/-- `node.rs:329`. -/
def nodeidAtPath (self : NodeTable) (path : Path) : Option Nat :=
  (self.nodes.toList.find? fun entry => entry.2.path = path).map Prod.fst

/-- `node.rs:290`. -/
def childPath (self : NodeTable) (parentNodeid : Nat) (name : Bytes) : Except Error Path := do
  let parent ← self.node parentNodeid
  .ok (parent.path ++ [name])

/-- `node.rs:335`. -/
def parentNodeid (self : NodeTable) (nodeid : Nat) : Except Error Nat := do
  let node ← self.node nodeid
  if node.path = [] then .ok ROOT_NODEID
  else
    match self.nodeidAtPath node.path.dropLast with
    | some parent => .ok parent
    | none => .error ⟨ESTALE, text "unknown parent for " ++ Text.decimal nodeid⟩

/-- The fid that a found node keeps, and the one that is left over; `node.rs:126`. -/
def chooseFid (node : Node) (fid : Option Fid) (identityChanged : Bool) : Option Fid × Option Fid :=
  match fid, node.fid, identityChanged with
  | some newFid, some oldFid, false => (some oldFid, some newFid)
  | some newFid, some oldFid, true => (some newFid, if oldFid ≠ newFid then some oldFid else none)
  | some newFid, none, _ => (some newFid, none)
  | none, old, _ => (old, none)

/-- `node.rs:110`. -/
def insertNode (self : NodeTable) (parentNodeid : Nat) (fid : Option Fid) (stat : Stat)
    (name : Bytes) : Except Error (InsertedNode × NodeTable) := do
  let path ← self.childPath parentNodeid name
  match self.nodeidAtPath path with
  | some nodeid => do
    let node ← self.node nodeid
    let (kept, clunkFid) := chooseFid node fid (!node.sameInodeIdentity stat)
    let found := { node.renew stat with fid := kept, lookups := saturatingSucc node.lookups }
    .ok (⟨nodeid, clunkFid⟩, { self with nodes := self.nodes.insert nodeid found })
  | none =>
    .ok (⟨self.nextNodeid, none⟩, { self with
      nodes := self.nodes.insert self.nextNodeid (.fresh fid path stat)
      nextNodeid := saturatingSucc self.nextNodeid })

/-- `node.rs:90`. -/
def insertLookup (self : NodeTable) (parentNodeid : Nat) (fid : Fid) (stat : Stat) (name : Bytes) :
    Except Error (InsertedNode × NodeTable) :=
  self.insertNode parentNodeid (some fid) stat name

/-- `node.rs:100`. -/
def insertLookupLazy (self : NodeTable) (parentNodeid : Nat) (stat : Stat) (name : Bytes) :
    Except Error (Nat × NodeTable) := do
  let (inserted, table) ← self.insertNode parentNodeid none stat name
  .ok (inserted.nodeid, table)

/-- `node.rs:173`. -/
def forget (self : NodeTable) (nodeid count : Nat) : Option Fid × NodeTable :=
  if nodeid = ROOT_NODEID then (none, self)
  else
    match self.nodes[nodeid]? with
    | none => (none, self)
    | some node =>
      if count < node.lookups then
        (none, { self with
          nodes := self.nodes.insert nodeid { node with lookups := node.lookups - count } })
      else (node.fid, { self with nodes := self.nodes.erase nodeid })

/-- `node.rs:193`. -/
def replaceBinding (self : NodeTable) (nodeid : Nat) (fid : Fid) (stat : Stat) :
    Except Error (Option Fid × NodeTable) := do
  let node ← self.node nodeid
  let table ← self.nodeMut nodeid fun node => { node.renew stat with fid := some fid }
  .ok (node.fid.filter (· ≠ fid), table)

/-- `node.rs:211`. -/
def takeCachedFid (self : NodeTable) (nodeid : Nat) : Except Error (Option Fid × NodeTable) := do
  let node ← self.node nodeid
  let table ← self.nodeMut nodeid fun node => { node with fid := none }
  .ok (node.fid, table)

/-- The generation stays, whatever the stat shows; `node.rs:215`. -/
def updateStat (self : NodeTable) (nodeid : Nat) (stat : Stat) : Except Error NodeTable :=
  self.nodeMut nodeid (·.observe stat)

/-- A node under a new stat, moved if there is a path. -/
def refreshed (node : Node) (stat : Stat) (path : Option Path) : Node :=
  { node.renew stat with path := path.getD node.path }

/-- Every node with the qid; `node.rs:238`. -/
def refreshQid (self : NodeTable) (qid : Qid) (stat : Stat) (path : Option Path) : NodeTable :=
  { self with
    nodes := self.nodes.map fun _ node =>
      if node.qid = qid then refreshed node stat path else node }

/-- Only the first node with the qid. Nothing is returned if there is none, and if the node that
was found had no fid; `node.rs:259`. -/
def replaceFirstQid (self : NodeTable) (qid : Qid) (fid : Fid) (stat : Stat) (path : Option Path) :
    Option Fid × NodeTable :=
  match self.nodes.toList.find? fun entry => entry.2.qid = qid with
  | some (nodeid, node) =>
    (node.fid, { self with
      nodes := self.nodes.insert nodeid { refreshed node stat path with fid := some fid } })
  | none => (none, self)

/-- `node.rs:296`. -/
def removePathSubtree (self : NodeTable) (path : Path) : List Fid × NodeTable :=
  if path = [] then ([], self)
  else
    ((self.nodes.toList.filter fun entry => path.isPrefixOf entry.2.path).filterMap (·.2.fid),
      { self with nodes := self.nodes.filter fun _ node => !path.isPrefixOf node.path })

/-- The path of a node behind a move. -/
def movedPath (old new path : Path) : Path :=
  if old.isPrefixOf path then new ++ path.drop old.length else path

/-- `node.rs:316`. -/
def movePathPrefix (self : NodeTable) (old new : Path) : NodeTable :=
  if old = [] then self
  else
    { self with nodes := self.nodes.map fun _ node =>
        { node with path := movedPath old new node.path } }

/-- `node.rs:352`. -/
def applyRebindResults (self : NodeTable) (rebound : List (Nat × Fid × Stat)) (stale : List Nat) :
    NodeTable :=
  let marked := stale.foldl (fun (table : NodeTable) nodeid =>
    match table.nodes[nodeid]? with
    | some node => { table with nodes := table.nodes.insert nodeid node.markStale }
    | none => table) self
  rebound.foldl (fun (table : NodeTable) (nodeid, fid, stat) =>
    match table.nodes[nodeid]? with
    | some node =>
      { table with nodes := table.nodes.insert nodeid { node.renew stat with fid := some fid } }
    | none => table) marked

/-- What a namespace change reaches: everything, a subtree or one path; `node.rs:432`. -/
def reached (path : Path) (includeDescendants : Bool) (node : Node) : Bool :=
  path = [] || if includeDescendants then path.isPrefixOf node.path else node.path = path

/-- The node at the parent of a path, the last one if there are several; `node.rs:422`. -/
def indexedParent (self : NodeTable) (path : Path) : Option Nat :=
  if path = [] then none
  else (self.nodes.toList.reverse.find? fun entry => entry.2.path = path.dropLast).map Prod.fst

/-- `node.rs:421`. -/
def markPathWith (self : NodeTable) (path : Path) (includeDescendants : Bool) :
    List StaleBinding × NodeTable :=
  let marked (nodeid : Nat) (node : Node) : Bool :=
    nodeid ≠ ROOT_NODEID && reached path includeDescendants node
  ((self.nodes.toList.filter fun entry => marked entry.1 entry.2).map fun (nodeid, node) =>
      ⟨nodeid, self.indexedParent node.path, node.path.getLast?.getD node.stat.name, node.fid⟩,
    { self with
      nodes := self.nodes.map fun nodeid node =>
        if marked nodeid node then node.markStale else node })

/-- `node.rs:394`. -/
def markPathStale (self : NodeTable) (path : Path) : List StaleBinding × NodeTable :=
  self.markPathWith path false

/-- `node.rs:398`. -/
def markPathPrefixStale (self : NodeTable) (path : Path) : List StaleBinding × NodeTable :=
  self.markPathWith path true

/-- `node.rs:390`. -/
def markPathBindingsStale (self : NodeTable) : List StaleBinding × NodeTable :=
  self.markPathPrefixStale []

/-! ### Handles -/

/-- The error for a number that no handle has. -/
def unknownHandle (handle : Nat) : Error :=
  ⟨ESTALE, text "unknown file handle " ++ Text.decimal handle⟩

/-- `handles.rs:63`. -/
def openHandle (self : NodeTable) (handle : Handle) : Nat × NodeTable :=
  (self.nextHandle, { self with
    handles := self.handles.insert self.nextHandle handle
    nextHandle := saturatingSucc self.nextHandle })

/-- `handles.rs:85`. -/
def handle (self : NodeTable) (handle : Nat) : Except Error Handle :=
  match self.handles[handle]? with
  | some found => .ok found
  | none => .error (unknownHandle handle)

/-- `handles.rs:180`. -/
def removeHandle (self : NodeTable) (handle : Nat) : Option Handle × NodeTable :=
  (self.handles[handle]?, { self with handles := self.handles.erase handle })

end NodeTable

end R9P.Fuse
