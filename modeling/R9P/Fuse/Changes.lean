import R9P.Fuse.Renaming
import R9P.Session.Record
import R9P.Session.Routing

/-!
# What a change record invalidates

Library `Fuse`. `fuse/src/fuse/change_feed.rs` places the paths of a record relative to the source
of the mount and marks what it finds in the node table. The meaning of a record is stated over
whole namespace paths, before they are placed.
-/

namespace R9P.Fuse

open Std Base Wire
open Session (NamespaceChange parseNamespacePath)

/-! ### Placing a record -/

/-- `change_feed.rs:28`. -/
inductive MountedPath where
  | outside
  | root
  | relative (path : Path)
  deriving DecidableEq

/-- `change_feed.rs:243`, behind the parse. -/
def MountedPath.place (source path : Path) : MountedPath :=
  if source = [] then if path = [] then .root else .relative path
  else if source.isPrefixOf path then
    if path.drop source.length = [] then .root else .relative (path.drop source.length)
  else if path.isPrefixOf source then .root
  else .outside

/-- `change_feed.rs:243`. -/
def mountedPath (source : Path) (path : Bytes) : Session.Result MountedPath :=
  (parseNamespacePath path).map (.place source)

/-- `change_feed.rs:281`; nothing for a change that is ignored. -/
def MountedChange.ofPaths (kind : Bytes) (old new : MountedPath) : Option MountedChange :=
  if kind = utf8 "renamed" then
    match old, new with
    | .relative old, .relative new => some (.renamed old new)
    | .relative old, _ => some (.removed old)
    | _, .relative new => some (.created new)
    | _, _ => none
  else
    match new with
    | .relative path =>
      some (if kind = utf8 "created" then .created path
        else if kind = utf8 "removed" then .removed path
        else .modified path)
    | _ => none

/-- The kinds of `change_feed.rs:267`. -/
def changeKinds : List Bytes := [utf8 "created", utf8 "removed", utf8 "modified", utf8 "renamed"]

/-- The old path of a record, `change_feed.rs:277`. -/
def mountedOldPath (source : Path) (change : NamespaceChange) : Session.Result MountedPath :=
  match change.oldPath with
  | some path => mountedPath source path
  | none => .ok .outside

/-- `change_feed.rs:266`. -/
def mountedChange (source : Path) (change : NamespaceChange) :
    Session.Result (Option MountedChange) :=
  if change.changeKind ∉ changeKinds then
    .error ⟨Session.Errno.EINVAL, utf8 "unknown namespace change kind " ++ change.changeKind⟩
  else do
    let path ← mountedPath source change.path
    let oldPath ← mountedOldPath source change
    pure (if path = .root ∨ oldPath = .root then some .root
      else MountedChange.ofPaths change.changeKind oldPath path)

/-- `record.rs:51`. -/
def scopeMatches (configuredScope : Option Bytes) (eventScope : Bytes) : Bool :=
  eventScope = utf8 "shared" || configuredScope.all (· = eventScope)

/-! ### Marking -/

/-- The node table, and the nodes that have a directory cache. -/
structure CachedTable where
  table : NodeTable
  dirCache : ExtTreeSet Nat

namespace CachedTable

/-- `node.rs:421`. -/
def markPathWith (self : CachedTable) (path : Path) (includeDescendants : Bool) : CachedTable where
  table := (self.table.markPathWith path includeDescendants).2
  dirCache := self.dirCache.filter fun nodeid =>
    nodeid = ROOT_NODEID ||
      !self.table.nodes[nodeid]?.any (NodeTable.reached path includeDescendants)

/-- `node.rs:410`. -/
def markParentDirectoryCacheStale (self : CachedTable) (path : Path) : CachedTable :=
  if path = [] then self
  else match self.table.nodeidAtPath path.dropLast with
    | some nodeid => { self with dirCache := self.dirCache.erase nodeid }
    | none => self

/-- `change_feed.rs:186`. -/
def applyMounted (self : CachedTable) : MountedChange → CachedTable
  | .root => self.markPathWith [] true
  | .created path | .modified path =>
    (self.markPathWith path false).markParentDirectoryCacheStale path
  | .removed path => (self.markPathWith path true).markParentDirectoryCacheStale path
  | .renamed old new =>
    (((self.markPathWith old true).markPathWith new true).markParentDirectoryCacheStale old
      ).markParentDirectoryCacheStale new

/-- `change_feed.rs:164`. -/
def applyNamespaceChange (self : CachedTable) (scope : Option Bytes) (source : Path)
    (change : NamespaceChange) : Session.Result CachedTable :=
  if !scopeMatches scope change.scope then .ok self
  else if change.changeKind = utf8 "resync" then .ok (self.markPathWith [] true)
  else (mountedChange source change).map fun mounted => (mounted.map self.applyMounted).getD self

end CachedTable

/-! ### The meaning of a record -/

/-- The paths that a record names. -/
def Concerns (change : NamespaceChange) (path : Path) : Prop :=
  parseNamespacePath change.path = .ok path ∨
    ∃ text, change.oldPath = some text ∧ parseNamespacePath text = .ok path

namespace CachedTable

variable {t : CachedTable} {path : Path} {includeDescendants : Bool} {nodeid : Nat} {node : Node}
  {place : Path} {mounted : MountedChange}

/-- A node that no cached state is served for. -/
def Stale (t : CachedTable) (nodeid : Nat) : Prop :=
  (∀ node, t.table.nodes[nodeid]? = some node → node.needsRebind = true ∧ node.stale = true) ∧
    nodeid ∉ t.dirCache

theorem nodes_markPathWith : (t.markPathWith path includeDescendants).table.nodes[nodeid]? =
    (t.table.nodes[nodeid]?).map fun node =>
      if nodeid ≠ ROOT_NODEID && NodeTable.reached path includeDescendants node then node.markStale
      else node :=
  ExtTreeMap.getElem?_map

theorem Stale.markPathWith (h : t.Stale nodeid) :
    (t.markPathWith path includeDescendants).Stale nodeid := by
  refine ⟨fun node hn => ?_, fun hm => h.2 (mem_set_filter.mp hm).1⟩
  rw [nodes_markPathWith] at hn
  obtain ⟨node', hn', rfl⟩ := Option.map_eq_some_iff.mp hn
  split
  · exact ⟨rfl, rfl⟩
  · exact h.1 node' hn'

theorem table_markParent (t : CachedTable) (place : Path) :
    (t.markParentDirectoryCacheStale place).table = t.table := by
  unfold markParentDirectoryCacheStale
  grind

/-- A node is the one at a path. -/
def At (t : CachedTable) (nodeid : Nat) (place : Path) : Prop :=
  t.table.Unique ∧ ∃ node, t.table.nodes[nodeid]? = some node ∧ node.path = place

theorem At.markPathWith (h : t.At nodeid place) :
    (t.markPathWith path includeDescendants).At nodeid place := by
  obtain ⟨hu, node, hn, hp⟩ := h
  have hb : ∀ {i : Nat} {n : Node},
      (t.markPathWith path includeDescendants).table.nodes[i]? = some n →
      ∃ n', t.table.nodes[i]? = some n' ∧ n.path = n'.path := by
    intro i n h
    rw [nodes_markPathWith] at h
    obtain ⟨n', hn', rfl⟩ := Option.map_eq_some_iff.mp h
    refine ⟨n', hn', ?_⟩
    split <;> rfl
  constructor
  · intro i j n n' hi hj hp
    obtain ⟨m, hm, hpm⟩ := hb hi
    obtain ⟨m', hm', hpm'⟩ := hb hj
    exact hu i j m m' hm hm' (hpm.symm.trans (hp.trans hpm'))
  · rw [nodes_markPathWith, hn, Option.map_some]
    refine ⟨_, rfl, ?_⟩
    split <;> exact hp

end CachedTable

/-- The bridge leaves behind a change the table that the marks come to: the fids are clunked behind
them. -/
theorem table_applyNamespaceChange {S : Service} (mounted : MountedChange)
    (dirCache : ExtTreeSet Nat) (b : Bridge S) :
    ((applyNamespaceChange mounted : Op S Reply).exec b).2.table =
      (CachedTable.applyMounted ⟨b.table, dirCache⟩ mounted).table := by
  have hc (stale : List StaleBinding) (b : Bridge S) :
      ((do clunkStaleBindings stale; pure .empty : Op S Reply).exec b).2.table = b.table :=
    quiet_table.bind (quiet_table.steps_releaseAll _) (fun _ => quiet_table.steps_pure _) b
  unfold CachedTable.applyMounted
  cases mounted with
  | root => rfl
  | created path | modified path | removed path =>
    dsimp only
    rw [CachedTable.table_markParent]
    exact hc _ { b with table := _ }
  | renamed old new =>
    dsimp only
    rw [CachedTable.table_markParent, CachedTable.table_markParent]
    exact hc _ { b with table := _ }

/-! ### Records -/

end R9P.Fuse
