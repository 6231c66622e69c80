import R9P.Base.Runs
import R9P.Session.Cache
import R9P.Session.Record

/-!
# Coherence of the namespace cache

Library `Session`. Queries read the server and put what they read into the cache in a second
step, `control/snapshot.rs:252` and `control/snapshot.rs:275`; the feed worker marks what has
changed in between, before or after, `feed/worker.rs:424`. A mark retires what the cache
holds, so an answer is older than a marked change only when a query was still holding it.
-/

namespace R9P.Session
open Base Wire

/-- What a query has read and not yet put into the cache. -/
inductive Query where
  | stat (path : Path) (stat : Dated Stat)
  | directory (path : Path) (entries : Dated (List DirEntry))

/-- The time of the read. -/
def Query.time : Query → Nat
  | .stat _ read => read.time
  | .directory _ read => read.time

/-- The second step of a query. -/
def Query.update (cache : NamespaceCache) : Query → NamespaceCache
  | .stat path read => cache.updateStat path read
  | .directory path read => cache.updateDirectory path read

/-- A stat of the path, or a listing with the path in it. -/
def Query.Concerns (path : Path) : Query → Prop
  | .stat p _ => p = path
  | .directory p _ => parentPath path = some p

variable {cache : NamespaceCache} {query : Query} {path : Path} {time : Nat}

/-- A query that is not older leaves nothing older behind. -/
theorem Query.update_statSince (h : cache.StatSince path time)
    (hqr : query.Concerns path → time ≤ query.time) :
    (query.update cache).StatSince path time := by
  cases query with
  | stat p stat => exact h.updateStat fun hp => hqr hp.symm
  | directory p entries => exact h.updateDirectory hqr

theorem Query.update_listedSince {parent : Path} (hp : parentPath path = some parent)
    (h : cache.ListedSince parent time) (hqr : query.Concerns path → time ≤ query.time) :
    (query.update cache).ListedSince parent time := by
  cases query with
  | stat p stat => exact h.updateStat
  | directory p entries =>
    apply h.updateDirectory
    rintro rfl
    exact hqr hp

/-- The paths a record names. -/
def NamespaceChange.Names (change : NamespaceChange) (path : Path) : Prop :=
  some path = parseAbsolutePath change.path ∨ some path = change.oldPath.bind parseAbsolutePath

/-- The cache between queries and feed. Time counts the changes on the server. -/
structure Shared where
  clock : Nat
  cache : NamespaceCache
  queries : List Query
  changes : List (Dated NamespaceChange)
  processed : List (Dated NamespaceChange)

namespace Shared

inductive Action where
  | fetchStat (path : Path) (stat : Stat)
  | fetchDirectory (path : Path) (entries : List DirEntry)
  | update (index : Nat)
  | change (change : NamespaceChange)
  | process (index : Nat)
  | invalidate (reason : StaleReason)

/-- One step of a query, of the server or of the worker. A record may be processed late, and
more than once, as a catch-up does. -/
inductive Step : Shared → Action → Shared → Prop
  | fetchStat {s : Shared} (path : Path) (stat : Stat) :
      Step s (.fetchStat path stat)
        { s with queries := .stat path ⟨stat, s.clock⟩ :: s.queries }
  | fetchDirectory {s : Shared} (path : Path) (entries : List DirEntry) :
      Step s (.fetchDirectory path entries)
        { s with queries := .directory path ⟨entries, s.clock⟩ :: s.queries }
  | update {s : Shared} {index : Nat} {query : Query} (hquery : s.queries[index]? = some query) :
      Step s (.update index)
        { s with cache := query.update s.cache, queries := s.queries.eraseIdx index }
  | change {s : Shared} (change : NamespaceChange) :
      Step s (.change change)
        { s with clock := s.clock + 1, changes := s.changes ++ [⟨change, s.clock + 1⟩] }
  | process {s : Shared} {index : Nat} {record : Dated NamespaceChange}
      (hrecord : s.changes[index]? = some record) :
      Step s (.process index)
        { s with
          cache := s.cache.markNamespaceChange record.value.path record.value.oldPath
          processed := record :: s.processed }
  | invalidate {s : Shared} (reason : StaleReason) :
      Step s (.invalidate reason) { s with cache := s.cache.markAllStale reason }

/-- A session starts with an empty cache. -/
def sharing : System Shared Action where
  initial s := s = ⟨0, .new, [], [], []⟩
  step := Step

/-- No answer for a path is older than a processed change that names it. -/
def Coherent (s : Shared) : Prop :=
  ∀ record ∈ s.processed, ∀ path, record.value.Names path →
    (∀ stat, s.cache.statIfFresh path = some stat → record.time ≤ stat.time) ∧
    ∀ parent, parentPath path = some parent →
      ∀ entries, s.cache.directoryIfFresh parent = some entries → record.time ≤ entries.time

/-- A query puts its answer into the cache only when no processed change that names a path of the
answer is newer. -/
def Settled (s : Shared) : Action → Prop
  | .update index => ∀ query, s.queries[index]? = some query → ∀ record ∈ s.processed,
      ∀ path, record.value.Names path → query.Concerns path → record.time ≤ query.time
  | _ => True

/-- Nothing in the cache is older than a processed change that names its path. -/
def Clean (s : Shared) : Prop :=
  ∀ record ∈ s.processed, ∀ path, record.value.Names path →
    s.cache.StatSince path record.time ∧
    ∀ parent, parentPath path = some parent → s.cache.ListedSince parent record.time

theorem Clean.coherent {s : Shared} (h : s.Clean) : s.Coherent := by
  intro record hrc path hpt
  obtain ⟨hst, hl⟩ := h record hrc path hpt
  refine ⟨fun stat hs => hst.statIfFresh hs, fun parent hp entries he => ?_⟩
  exact (hl parent hp).directoryIfFresh he

variable {s s' : Shared}

theorem Clean.step (h : s.Clean) {action : Action} (hsl : s.Settled action)
    (hs : Step s action s') : s'.Clean := by
  cases hs with
  | fetchStat path stat | fetchDirectory path entries | change change => exact h
  | @update index query hqr =>
    intro record hrc path hpt
    obtain ⟨hst, hl⟩ := h record hrc path hpt
    have hqs := hsl query hqr record hrc path hpt
    refine ⟨Query.update_statSince hst hqs, fun parent hp => ?_⟩
    exact Query.update_listedSince hp (hl parent hp) hqs
  | @process index record hrc =>
    intro other ho path hpt
    rcases List.mem_cons.mp ho with rfl | ho
    · -- the mark retires what the cache held
      exact NamespaceCache.markNamespaceChange_since hpt
    · obtain ⟨hst, hl⟩ := h other ho path hpt
      refine ⟨hst.markNamespaceChange, fun parent hp => ?_⟩
      exact (hl parent hp).markNamespaceChange
  | invalidate reason =>
    intro record hrc path hpt
    exact ⟨NamespaceCache.statSince_markAllStale,
      fun parent _ => NamespaceCache.listedSince_markAllStale⟩

/-- In every run whose queries put nothing older than a processed change into the cache, the cache
is coherent. -/
theorem cache_coherent {history : List Action} (run : (sharing.restrict Settled).Run history s) :
    s.Coherent := by
  apply Clean.coherent
  apply run.invariant (I := fun _ => Clean)
  · rintro _ rfl record hr
    cases hr
  · intro _ s label s' _ hc hs
    exact hc.step hs.1 hs.2

def edited : NamespaceChange :=
  ⟨utf8 "shared", utf8 "/readme", utf8 "modified", 1, utf8 "e1", none⟩

def readme : Stat := ⟨0, 0, ⟨0, 0, 7⟩, 0, 0, 0, 0, utf8 "readme", [], [], []⟩

/-- A change is marked behind one query and before another. -/
theorem cache_coherent_marked : ∃ s, (sharing.restrict Settled).Run
      [.update 0, .fetchStat [utf8 "readme"] readme, .process 0, .change edited, .update 0,
        .fetchStat [utf8 "readme"] readme] s ∧
    s.processed = [⟨edited, 1⟩] ∧
    s.cache.statIfFresh [utf8 "readme"] = some ⟨readme, 1⟩ ∧ s.Coherent := by
  have hr : ∃ s, (sharing.restrict Settled).Run
      [.update 0, .fetchStat [utf8 "readme"] readme, .process 0, .change edited, .update 0,
        .fetchStat [utf8 "readme"] readme] s ∧
      s.processed = [⟨edited, 1⟩] ∧
      s.cache.statIfFresh [utf8 "readme"] = some ⟨readme, 1⟩ := by
    refine ⟨_, .next (.next (.next (.next (.next (.next (.start rfl) ⟨trivial, .fetchStat _ _⟩)
      ⟨?older, .update rfl⟩) ⟨trivial, .change _⟩) ⟨trivial, .process rfl⟩)
      ⟨trivial, .fetchStat _ _⟩) ⟨?newer, .update rfl⟩, rfl, rfl⟩
    case older =>
      intro query _ record hr
      cases hr
    case newer =>
      intro query hq record hr path _ _
      cases hq
      rw [List.mem_singleton.mp hr]
      exact Nat.le_refl _
  obtain ⟨s, run, hp, hf⟩ := hr
  exact ⟨s, run, hp, hf, cache_coherent run⟩

/-- A query that was overtaken by a change puts what it read before into the cache, where
nothing will mark it again. -/
theorem overtaken_query_is_kept : ∃ s,
    sharing.Run [.update 0, .process 0, .change edited, .fetchStat [utf8 "readme"] readme] s ∧
    s.processed = [⟨edited, 1⟩] ∧ edited.Names [utf8 "readme"] ∧
    s.cache.statIfFresh [utf8 "readme"] = some ⟨readme, 0⟩ := by
  refine ⟨_, .next (.next (.next (.next (.start rfl) (.fetchStat _ _)) (.change _)) (.process rfl))
    (.update rfl), rfl, ?_, ?_⟩
  · exact .inl (by decide)
  · rfl

end Shared

end R9P.Session
