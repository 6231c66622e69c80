import R9P.Wire.Data

/-!
# The namespace cache

Library `Session`. `NamespaceCache` of `crates/session/src/cache.rs`: for every path the last
stat and the last directory listing that a query brought back, each with a mark that says
whether it may still be used.
-/

namespace R9P.Session
open Base Wire
open Function (update_of_ne update_self)

/-- The components of a namespace path. -/
abbrev Path := List Bytes

/-- `cache.rs:15`. -/
inductive StaleReason where
  | reconnect
  | namespaceChange
  | identityChange
  | notDirectory
  | explicit (text : Bytes)
  deriving DecidableEq, Repr

/-- `cache.rs:24`. -/
structure Freshness where
  staleReason : Option StaleReason
  deriving DecidableEq, Repr

namespace Freshness

def freshNow : Freshness := ⟨none⟩
def isStale (self : Freshness) : Bool := self.staleReason.isSome
def markFresh (_self : Freshness) : Freshness := ⟨none⟩
def markStale (_self : Freshness) (reason : StaleReason) : Freshness := ⟨some reason⟩

end Freshness

/-- `cache.rs:95`. -/
structure DirEntry where
  name : Bytes
  qid : Qid
  stat : Stat
  deriving DecidableEq, Repr

/-- A value of the server and, for the statements only, the time it dates from. No function of
the cache looks at the time. -/
structure Dated (α : Type) where
  value : α
  time : Nat
  deriving DecidableEq, Repr

/-- `cache.rs:76`. -/
structure DirCache where
  entries : Dated (List DirEntry)
  freshness : Freshness
  deriving DecidableEq, Repr

/-- `cache.rs:112`. -/
structure CachedNode where
  stat : Dated Stat
  statFreshness : Freshness
  dirCache : Option DirCache
  deriving DecidableEq, Repr

/-- `cache.rs:107`, the map behind the lock. -/
structure NamespaceCache where
  entries : Path → Option CachedNode

/-- `cache.rs:299`. -/
def isDir (stat : Stat) : Bool := stat.qid.qtype &&& QTDIR != 0 || stat.mode &&& DMDIR != 0

/-- `cache.rs:307`. -/
def sameQid (a b : Qid) : Bool := a.path == b.path && a.version == b.version && a.qtype == b.qtype

/-- `cache.rs:311`. -/
def parentPath (path : Path) : Option Path := if path.isEmpty then none else some path.dropLast

/-- `cache.rs:319`. -/
def pathIsPrefix (pre path : Path) : Bool :=
  pre.length ≤ path.length && (path.zip pre).all fun (component, other) => component == other

/-- `cache.rs:347`. -/
def parseAbsolutePath (path : Bytes) : Option Path :=
  if (utf8 "/").isPrefixOf path then some ((path.splitOn 0x2f).filter (!·.isEmpty)) else none

namespace NamespaceCache

/-- `cache.rs:126`. -/
def new : NamespaceCache := ⟨fun _ => none⟩

/-- `cache.rs:132`. -/
def statIfFresh (self : NamespaceCache) (path : Path) : Option (Dated Stat) :=
  ((self.entries path).filter (!·.statFreshness.isStale)).map (·.stat)

/-- `cache.rs:141`. -/
def directoryIfFresh (self : NamespaceCache) (path : Path) : Option (Dated (List DirEntry)) :=
  ((((self.entries path).filter (!·.statFreshness.isStale)).bind (·.dirCache)).filter
    (!·.freshness.isStale)).map (·.entries)

/-- The node of a path behind a new stat, in `update_stat`, `cache.rs:162`, and for each child
in `seed_child_stats`, `cache.rs:338`. -/
def refreshed (node : Option CachedNode) (stat : Dated Stat) : CachedNode :=
  let entry := node.getD ⟨stat, .freshNow, none⟩
  let identityChanged := !sameQid entry.stat.value.qid stat.value.qid
  { stat := stat
    statFreshness := entry.statFreshness.markFresh
    dirCache := if identityChanged || !isDir stat.value then none else entry.dirCache }

/-- `cache.rs:152`. -/
def updateStat (self : NamespaceCache) (path : Path) (stat : Dated Stat) : NamespaceCache :=
  ⟨Function.update self.entries path (some (refreshed (self.entries path) stat))⟩

/-- One turn of the loop of `cache.rs:323`. -/
def seedChild (parent : Path) (time : Nat) (self : NamespaceCache) (child : DirEntry) :
    NamespaceCache :=
  if child.name == utf8 "." || child.name == utf8 ".." then self
  else self.updateStat (parent ++ [child.name]) ⟨child.stat, time⟩

/-- `cache.rs:323`. -/
def seedChildStats (self : NamespaceCache) (parent : Path) (entries : Dated (List DirEntry)) :
    NamespaceCache :=
  entries.value.foldl (seedChild parent entries.time) self

/-- `cache.rs:171`. -/
def updateDirectory (self : NamespaceCache) (path : Path) (entries : Dated (List DirEntry)) :
    NamespaceCache :=
  match self.entries path with
  | none => self
  | some entry =>
    if isDir entry.stat.value && !entry.statFreshness.isStale then
      let listed := { entry with dirCache := some ⟨entries, .freshNow⟩ }
      seedChildStats ⟨Function.update self.entries path (some listed)⟩ path entries
    else self

/-- A node that may not be used any more, `cache.rs:209` and `cache.rs:219`. -/
def retired (reason : StaleReason) (node : CachedNode) : CachedNode :=
  { node with statFreshness := node.statFreshness.markStale reason, dirCache := none }

/-- `cache.rs:200`. -/
def markPathStale (self : NamespaceCache) (path : Path) (reason : StaleReason) : NamespaceCache :=
  let unlisted : NamespaceCache :=
    match parentPath path with
    | none => self
    | some parent =>
      ⟨Function.update self.entries parent
        ((self.entries parent).map fun node => { node with dirCache := none })⟩
  ⟨fun entryPath =>
    if pathIsPrefix path entryPath then (unlisted.entries entryPath).map (retired reason)
    else unlisted.entries entryPath⟩

/-- `cache.rs:216`. -/
def markAllStale (self : NamespaceCache) (reason : StaleReason) : NamespaceCache :=
  ⟨fun path => (self.entries path).map (retired reason)⟩

/-- One of the two paths of a record, `cache.rs:184` and `cache.rs:191`. -/
def markChanged (self : NamespaceCache) (field : String) (path : Bytes) : NamespaceCache :=
  match parseAbsolutePath path with
  | some segments => self.markPathStale segments .namespaceChange
  | none => self.markAllStale (.explicit (utf8 s!"invalid namespace change {field} " ++ path))

/-- `cache.rs:183`. -/
def markNamespaceChange (self : NamespaceCache) (path : Bytes) (oldPath : Option Bytes) :
    NamespaceCache :=
  let marked := self.markChanged "path" path
  match oldPath with
  | none => marked
  | some oldPath => marked.markChanged "old_path" oldPath

/-! ### What is behind the answers -/

variable {self : NamespaceCache} {path p q : Path} {time : Nat} {reason : StaleReason}

/-- A stat that may be used for the path is not older than the time. -/
def StatSince (self : NamespaceCache) (path : Path) (time : Nat) : Prop :=
  ∀ node, self.entries path = some node → node.statFreshness.isStale = false →
    time ≤ node.stat.time

/-- A listing kept for the path is not older than the time. -/
def ListedSince (self : NamespaceCache) (path : Path) (time : Nat) : Prop :=
  ∀ node, self.entries path = some node → ∀ listing, node.dirCache = some listing →
    time ≤ listing.entries.time

variable {stat : Dated Stat}

theorem StatSince.statIfFresh (h : self.StatSince path time)
    (hs : self.statIfFresh path = some stat) : time ≤ stat.time := by
  unfold NamespaceCache.statIfFresh at hs
  simp only [Option.map_eq_some_iff, Option.filter_eq_some_iff, Bool.not_eq_true'] at hs
  obtain ⟨node, ⟨hn, hf⟩, rfl⟩ := hs
  exact h node hn hf

variable {entries : Dated (List DirEntry)}

theorem ListedSince.directoryIfFresh (h : self.ListedSince path time)
    (he : self.directoryIfFresh path = some entries) :
    time ≤ entries.time := by
  unfold NamespaceCache.directoryIfFresh at he
  simp only [Option.map_eq_some_iff, Option.filter_eq_some_iff, Option.bind_eq_some_iff] at he
  obtain ⟨listing, ⟨⟨node, ⟨hn, _⟩, hl⟩, _⟩, rfl⟩ := he
  exact h node hn listing hl

/-! ### Updates -/

theorem StatSince.updateStat (h : self.StatSince p time)
    (hs : p = path → time ≤ stat.time) : (self.updateStat path stat).StatSince p time := by
  intro node hn hf
  unfold NamespaceCache.updateStat at hn
  by_cases hp : p = path
  · rw [hp] at hn
    simp only [update_self, Option.some.injEq] at hn
    rw [← hn]
    exact hs hp
  · simp only [update_of_ne hp] at hn
    exact h node hn hf

/-- A listing outlives a stat only as it is. -/
theorem ListedSince.updateStat (h : self.ListedSince p time) :
    (self.updateStat path stat).ListedSince p time := by
  intro node hn listing hl
  unfold NamespaceCache.updateStat at hn
  by_cases hp : p = path
  · rw [hp] at hn h
    simp only [update_self, Option.some.injEq] at hn
    rw [← hn, refreshed] at hl
    split at hl
    · cases hl
    · cases he : self.entries path with
      | none =>
        rw [he] at hl
        cases hl
      | some entry =>
        rw [he] at hl
        exact h entry he listing hl
  · simp only [update_of_ne hp] at hn
    exact h node hn listing hl

theorem parentPath_append (parent : Path) (name : Bytes) :
    parentPath (parent ++ [name]) = some parent := by
  simp [parentPath]

variable {parent : Path}

theorem StatSince.seedChild {at' : Nat} {child : DirEntry}
    (h : self.StatSince p time) (hpr : parentPath p = some parent → time ≤ at') :
    (seedChild parent at' self child).StatSince p time := by
  unfold NamespaceCache.seedChild
  split
  · exact h
  · apply h.updateStat
    rintro rfl
    exact hpr (parentPath_append parent child.name)

theorem ListedSince.seedChild {at' : Nat} {child : DirEntry}
    (h : self.ListedSince p time) : (seedChild parent at' self child).ListedSince p time := by
  unfold NamespaceCache.seedChild
  split
  · exact h
  · exact h.updateStat

/-- The children of a listing are as old as the listing. -/
theorem StatSince.seedChildStats
    (h : self.StatSince p time) (hpr : parentPath p = some parent → time ≤ entries.time) :
    (self.seedChildStats parent entries).StatSince p time := by
  unfold NamespaceCache.seedChildStats
  induction entries.value generalizing self with
  | nil => exact h
  | cons child rest ih => exact ih (h.seedChild hpr)

theorem ListedSince.seedChildStats
    (h : self.ListedSince p time) : (self.seedChildStats parent entries).ListedSince p time := by
  unfold NamespaceCache.seedChildStats
  induction entries.value generalizing self with
  | nil => exact h
  | cons child rest ih => exact ih h.seedChild

theorem StatSince.updateDirectory (h : self.StatSince p time)
    (hpr : parentPath p = some path → time ≤ entries.time) :
    (self.updateDirectory path entries).StatSince p time := by
  unfold NamespaceCache.updateDirectory
  split
  · exact h
  · next entry he =>
    split
    · apply StatSince.seedChildStats _ hpr
      intro node hn hf
      by_cases hp : p = path
      · rw [hp] at hn h
        simp only [update_self, Option.some.injEq] at hn
        subst hn
        exact h entry he hf
      · simp only [update_of_ne hp] at hn
        exact h node hn hf
    · exact h

theorem ListedSince.updateDirectory (h : self.ListedSince p time)
    (hpt : p = path → time ≤ entries.time) :
    (self.updateDirectory path entries).ListedSince p time := by
  unfold NamespaceCache.updateDirectory
  split
  · exact h
  · split
    · apply ListedSince.seedChildStats
      intro node hn listing hl
      by_cases hp : p = path
      · rw [hp] at hn
        simp only [update_self, Option.some.injEq] at hn
        rw [← hn] at hl
        cases hl
        exact hpt hp
      · simp only [update_of_ne hp] at hn
        exact h node hn listing hl
    · exact h

/-! ### Marks -/

theorem pathIsPrefix_self (path : Path) : pathIsPrefix path path = true := by
  have hz : (path.zip path).all (fun (component, other) => component == other) = true := by
    induction path with
    | nil => rfl
    | cons component rest ih => simp [ih]
  simp [pathIsPrefix, hz]

/-- A mark retires a node, or leaves it as it is but for its listing, which a parent loses. -/
theorem entries_markPathStale {node : CachedNode}
    (h : (self.markPathStale path reason).entries p = some node) :
    ∃ before, self.entries p = some before ∧
      (node = retired reason before ∨
        pathIsPrefix path p = false ∧ node.stat = before.stat ∧
          node.statFreshness = before.statFreshness ∧
          (node.dirCache = none ∨ node.dirCache = before.dirCache ∧ parentPath path ≠ some p)) := by
  unfold markPathStale at h
  cases hpr : parentPath path with
  | none =>
    rw [hpr] at h
    dsimp only at h
    split at h
    · obtain ⟨before, hb, rfl⟩ := Option.map_eq_some_iff.mp h
      exact ⟨before, hb, .inl rfl⟩
    · next hbg =>
      exact ⟨node, h, .inr ⟨Bool.eq_false_iff.mpr hbg, rfl, rfl, .inr ⟨rfl, nofun⟩⟩⟩
  | some parent =>
    rw [hpr] at h
    dsimp only at h
    by_cases hp : p = parent
    · subst hp
      rw [update_self, Option.map_map] at h
      split at h
      · obtain ⟨before, hb, rfl⟩ := Option.map_eq_some_iff.mp h
        exact ⟨before, hb, .inl rfl⟩
      · next hbg =>
        obtain ⟨before, hb, rfl⟩ := Option.map_eq_some_iff.mp h
        exact ⟨before, hb, .inr ⟨Bool.eq_false_iff.mpr hbg, rfl, rfl, .inl rfl⟩⟩
    · rw [update_of_ne hp] at h
      split at h
      · obtain ⟨before, hb, rfl⟩ := Option.map_eq_some_iff.mp h
        exact ⟨before, hb, .inl rfl⟩
      · next hbg =>
        refine ⟨node, h, .inr ⟨Bool.eq_false_iff.mpr hbg, rfl, rfl, .inr ⟨rfl, ?_⟩⟩⟩
        intro heq
        exact hp (Option.some.inj heq).symm

theorem StatSince.markPathStale (h : self.StatSince p time) :
    (self.markPathStale path reason).StatSince p time := by
  intro node hn hf
  obtain ⟨before, hb, rfl | ⟨_, hs, hsm, _⟩⟩ := entries_markPathStale hn
  · cases hf
  · rw [hs]
    rw [hsm] at hf
    exact h before hb hf

theorem ListedSince.markPathStale (h : self.ListedSince p time) :
    (self.markPathStale path reason).ListedSince p time := by
  intro node hn listing hl
  obtain ⟨before, hb, rfl | ⟨_, _, _, hnn | ⟨hsm, _⟩⟩⟩ := entries_markPathStale hn
  · cases hl
  · rw [hnn] at hl
    cases hl
  · rw [hsm] at hl
    exact h before hb listing hl

/-- No stat of a marked path may be used. -/
theorem statSince_markPathStale : (self.markPathStale path reason).StatSince path time := by
  intro node hn hf
  obtain ⟨before, _, rfl | ⟨hbg, _⟩⟩ := entries_markPathStale hn
  · cases hf
  · rw [pathIsPrefix_self] at hbg
    cases hbg

/-- No listing of its parent is kept. -/
theorem listedSince_markPathStale (hpr : parentPath path = some q) :
    (self.markPathStale path reason).ListedSince q time := by
  intro node hn listing hl
  obtain ⟨before, _, rfl | ⟨_, _, _, hnn | ⟨_, ho⟩⟩⟩ := entries_markPathStale hn
  · cases hl
  · rw [hnn] at hl
    cases hl
  · exact absurd hpr ho

theorem statSince_markAllStale : (self.markAllStale reason).StatSince p time := by
  intro node hn hf
  obtain ⟨before, _, rfl⟩ := Option.map_eq_some_iff.mp hn
  cases hf

theorem listedSince_markAllStale : (self.markAllStale reason).ListedSince p time := by
  intro node hn listing hl
  obtain ⟨before, _, rfl⟩ := Option.map_eq_some_iff.mp hn
  cases hl

variable {field : String} {text : Bytes} {oldPath : Option Bytes}

theorem StatSince.markChanged (h : self.StatSince p time) :
    (self.markChanged field text).StatSince p time := by
  unfold NamespaceCache.markChanged
  split
  · exact h.markPathStale
  · exact statSince_markAllStale

theorem ListedSince.markChanged (h : self.ListedSince p time) :
    (self.markChanged field text).ListedSince p time := by
  unfold NamespaceCache.markChanged
  split
  · exact h.markPathStale
  · exact listedSince_markAllStale

theorem StatSince.markNamespaceChange (h : self.StatSince p time) :
    (self.markNamespaceChange text oldPath).StatSince p time := by
  cases oldPath with
  | none => exact h.markChanged
  | some old => exact h.markChanged.markChanged

theorem ListedSince.markNamespaceChange (h : self.ListedSince p time) :
    (self.markNamespaceChange text oldPath).ListedSince p time := by
  cases oldPath with
  | none => exact h.markChanged
  | some old => exact h.markChanged.markChanged

theorem statSince_markChanged (hpt : parseAbsolutePath text = some p) :
    (self.markChanged field text).StatSince p time := by
  rw [markChanged, hpt]
  exact statSince_markPathStale

theorem listedSince_markChanged (hpt : parseAbsolutePath text = some p)
    (hpr : parentPath p = some q) : (self.markChanged field text).ListedSince q time := by
  rw [markChanged, hpt]
  exact listedSince_markPathStale hpr

/-- Behind the mark of a change nothing older is left of the paths it names. -/
theorem markNamespaceChange_since
    (hpt : some p = parseAbsolutePath text ∨ some p = oldPath.bind parseAbsolutePath) :
    (self.markNamespaceChange text oldPath).StatSince p time ∧
      ∀ q, parentPath p = some q → (self.markNamespaceChange text oldPath).ListedSince q time := by
  rcases hpt with hpt | hpt
  · cases oldPath with
    | none =>
      exact ⟨statSince_markChanged hpt.symm, fun q hq => listedSince_markChanged hpt.symm hq⟩
    | some old =>
      exact ⟨(statSince_markChanged hpt.symm).markChanged,
        fun q hq => (listedSince_markChanged hpt.symm hq).markChanged⟩
  · obtain ⟨old, rfl, ho⟩ := Option.bind_eq_some_iff.mp hpt.symm
    exact ⟨statSince_markChanged ho, fun q hq => listedSince_markChanged ho hq⟩

end NamespaceCache

end R9P.Session
