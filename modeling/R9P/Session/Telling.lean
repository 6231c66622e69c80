import R9P.Session.Feed

/-!
# Telling of a change

Library `Session`. A change is told when its record was published and its path marked, or when
everything was invalidated behind it. Marks and events leave the log and the cursor of the
worker alone, and a batch of whole records tells of every change in it.
-/

namespace R9P.Session
open Base Wire

namespace Feed

/-- The record was published and its path marked, or everything was invalidated, when the log
already had the record at this place. -/
def Told (f : Feed) (index : Nat) : Prop :=
  ∀ line, f.log[index]? = some line → ∃ time, index < time ∧
    ((∃ source cursorComplete,
        (time, .published (.change line.change source cursorComplete)) ∈ f.effects) ∧
        (f.cache.isSome → (time, .marked line.change.path line.change.oldPath) ∈ f.effects) ∨
      (∃ reason, (time, .published (.coarseInvalidation reason)) ∈ f.effects) ∧
        (f.cache.isSome → (time, .markedAll) ∈ f.effects))

/-- Every change since the worker first had a stream, below this place, was told. -/
def ToldBelow (f : Feed) (bound : Nat) : Prop :=
  ∀ first, f.first = some first → ∀ index, first ≤ index → index < bound → f.Told index

/-! ### What publishing leaves alone -/

/-- Marks and events change the cache, the bus and the feed state, and are noted. -/
structure Acts (f f' : Feed) : Prop where
  log : f'.log = f.log
  since : f'.sinceEventId = f.sinceEventId
  first : f'.first = f.first
  consumed : f'.consumed = f.consumed
  cache : f'.cache.isSome = f.cache.isSome
  bus : f'.eventBus.isSome = f.eventBus.isSome
  effects : f.effects ⊆ f'.effects

variable {f f' f'' : Feed} {index : Nat}

theorem Acts.refl (f : Feed) : Acts f f := ⟨rfl, rfl, rfl, rfl, rfl, rfl, .refl _⟩

theorem Acts.trans (h : Acts f f') (h' : Acts f' f'') : Acts f f'' where
  log := h'.log.trans h.log
  since := h'.since.trans h.since
  first := h'.first.trans h.first
  consumed := h'.consumed.trans h.consumed
  cache := h'.cache.trans h.cache
  bus := h'.bus.trans h.bus
  effects := List.Subset.trans h.effects h'.effects

/-- What was told stays told. -/
theorem Told.mono (h : f.Told index) (hlg : f'.log[index]? = f.log[index]?)
    (hc : f'.cache.isSome = f.cache.isSome) (he : f.effects ⊆ f'.effects) :
    f'.Told index := by
  intro line hl
  rw [hlg] at hl
  obtain ⟨time, htm, ht⟩ := h line hl
  refine ⟨time, htm, ?_⟩
  rw [hc]
  rcases ht with ⟨⟨source, complete, hp⟩, hm⟩ | ⟨⟨reason, hp⟩, hm⟩
  · exact .inl ⟨⟨source, complete, he hp⟩, fun h => he (hm h)⟩
  · exact .inr ⟨⟨reason, he hp⟩, fun h => he (hm h)⟩

theorem ToldBelow.mono {bound : Nat} (h : f.ToldBelow bound) (hfr : f'.first = f.first)
    (hlg : ∀ index < bound, f'.log[index]? = f.log[index]?)
    (hc : f'.cache.isSome = f.cache.isSome) (he : f.effects ⊆ f'.effects) :
    f'.ToldBelow bound := by
  intro first hf index hle hlt
  rw [hfr] at hf
  exact (h first hf index hle hlt).mono (hlg index hlt) hc he

theorem Acts.told (h : Acts f f') (ht : f.Told index) : f'.Told index :=
  ht.mono (by rw [h.log]) h.cache h.effects

theorem Acts.toldBelow (h : Acts f f') {bound : Nat} (ht : f.ToldBelow bound) :
    f'.ToldBelow bound :=
  ht.mono h.first (fun _ _ => by rw [h.log]) h.cache h.effects

theorem ToldBelow.le {bound bound' : Nat} (h : f.ToldBelow bound) (hle : bound' ≤ bound) :
    f.ToldBelow bound' :=
  fun first hf index hfi hi => h first hf index hfi (by omega)

/-- What was told below one place, and from there on one by one. -/
theorem ToldBelow.extend {bound bound' : Nat} (h : f.ToldBelow bound)
    (hfr : ∀ index, bound ≤ index → index < bound' → f.Told index) : f.ToldBelow bound' := by
  intro first hf index hle hlt
  by_cases hb : index < bound
  · exact h first hf index hle hb
  · exact hfr index (by omega) hlt

theorem acts_setConnected (source : FeedSource) (eventId : Option Bytes)
    (generation : Option UInt64) (f : Feed) : Acts f (f.setConnected source eventId generation) :=
  ⟨rfl, rfl, rfl, rfl, rfl, rfl, .refl _⟩

theorem acts_setDegraded (message : String) (f : Feed) : Acts f (f.setDegraded message) :=
  ⟨rfl, rfl, rfl, rfl, rfl, rfl, .refl _⟩

theorem acts_markAllStale (reason : StaleReason) (f : Feed) : Acts f (f.markAllStale reason) := by
  unfold markAllStale
  split
  · exact .refl f
  · next cache hc =>
    exact ⟨rfl, rfl, rfl, rfl, by rw [hc]; rfl, rfl, List.subset_cons_self _ _⟩

theorem acts_markNamespaceChange (record : NamespaceChange) (f : Feed) :
    Acts f (f.markNamespaceChange record) := by
  unfold markNamespaceChange
  split
  · exact .refl f
  · next cache hc =>
    exact ⟨rfl, rfl, rfl, rfl, by rw [hc]; rfl, rfl, List.subset_cons_self _ _⟩

theorem acts_publishFeedEvent (event : FeedEvent) (f : Feed) :
    Acts f (f.publishFeedEvent event) := by
  unfold publishFeedEvent
  split
  · exact .refl f
  · next bus hb =>
    have hn : Acts f ({ f with eventBus := some (bus.publish event).2 }.note (.published event)) :=
      ⟨rfl, rfl, rfl, rfl, rfl, by rw [hb]; rfl, List.subset_cons_self _ _⟩
    split
    · exact hn
    · exact (hn.trans (acts_markAllStale _ _)).trans (acts_setDegraded _ _)

/-- The cursor is kept in the feed state. -/
def lastEventId (f : Feed) : Option Bytes := f.snapshot.lastEventId

@[simp] theorem lastEventId_markAllStale (reason : StaleReason) :
    (f.markAllStale reason).lastEventId = f.lastEventId := by
  unfold markAllStale
  split <;> rfl

@[simp] theorem lastEventId_setDegraded (message : String) :
    (f.setDegraded message).lastEventId = f.lastEventId := rfl

@[simp] theorem lastEventId_publishFeedEvent (event : FeedEvent) :
    (f.publishFeedEvent event).lastEventId = f.lastEventId := by
  unfold publishFeedEvent
  split
  · rfl
  · split
    · rfl
    · rw [lastEventId_setDegraded, lastEventId_markAllStale]
      rfl

/-! ### Telling -/

/-- With a bus, an event is published at the present length of the log. -/
theorem published_publishFeedEvent (hb : f.eventBus.isSome) (event : FeedEvent) :
    (f.log.length, .published event) ∈ (f.publishFeedEvent event).effects := by
  unfold publishFeedEvent
  obtain ⟨bus, hb⟩ := Option.isSome_iff_exists.mp hb
  rw [hb]
  dsimp only
  have hn : (f.log.length, .published event) ∈
      ({ f with eventBus := some (bus.publish event).2 }.note (.published event)).effects :=
    List.mem_cons_self
  split
  · exact hn
  · exact (acts_setDegraded _ _).effects ((acts_markAllStale _ _).effects hn)

theorem marked_markAllStale (hc : f.cache.isSome) (reason : StaleReason) :
    (f.log.length, .markedAll) ∈ (f.markAllStale reason).effects := by
  unfold markAllStale
  obtain ⟨cache, hc⟩ := Option.isSome_iff_exists.mp hc
  rw [hc]
  exact List.mem_cons_self

theorem marked_markNamespaceChange (hc : f.cache.isSome) (record : NamespaceChange) :
    (f.log.length, .marked record.path record.oldPath) ∈
      (f.markNamespaceChange record).effects := by
  unfold markNamespaceChange
  obtain ⟨cache, hc⟩ := Option.isSome_iff_exists.mp hc
  rw [hc]
  exact List.mem_cons_self

/-- Invalidating everything tells every change there has been. -/
theorem told_coarseInvalidation (hb : f.eventBus.isSome) (stale : StaleReason) (reason : String)
    (index : Nat) :
    ((f.markAllStale stale).publishFeedEvent (.coarseInvalidation reason)).Told index := by
  have hm := acts_markAllStale stale f
  have hp := acts_publishFeedEvent (.coarseInvalidation reason) (f.markAllStale stale)
  intro line hl
  have hi : index < f.log.length := by
    rw [hp.log, hm.log] at hl
    exact (List.getElem?_eq_some_iff.mp hl).1
  refine ⟨f.log.length, hi, .inr ⟨⟨reason, ?_⟩, fun hc => ?_⟩⟩
  · rw [← hm.log]
    exact published_publishFeedEvent (hm.bus.trans hb) _
  · rw [hp.cache, hm.cache] at hc
    exact hp.effects (marked_markAllStale hc stale)

/-- Marking and publishing a record tells its change. -/
theorem told_change (hb : f.eventBus.isSome) (record : NamespaceChange) (source : FeedSource)
    (complete : Bool) {line : Line} (hl : f.log[index]? = some line)
    (hr : line.change = record) :
    ((f.markNamespaceChange record).publishFeedEvent (.change record source complete)).Told
      index := by
  have hm := acts_markNamespaceChange record f
  have hp :=
    acts_publishFeedEvent (.change record source complete) (f.markNamespaceChange record)
  intro other ho
  rw [hp.log, hm.log, hl] at ho
  cases ho
  have hi : index < f.log.length := (List.getElem?_eq_some_iff.mp hl).1
  refine ⟨f.log.length, hi, .inl ⟨⟨source, complete, ?_⟩, fun hc => ?_⟩⟩
  · rw [hr, ← hm.log]
    exact published_publishFeedEvent (hm.bus.trans hb) _
  · rw [hp.cache, hm.cache] at hc
    rw [hr]
    exact hp.effects (marked_markNamespaceChange hc record)

section
variable (source : FeedSource) (records : List NamespaceChange) (f : Feed)

/-- What the loop over the records of a batch comes to. -/
theorem acts_publishChanges : Acts f (f.publishChanges source records) := by
  induction records generalizing f with
  | nil => exact .refl f
  | cons record rest ih =>
    exact (((acts_markNamespaceChange record f).trans (acts_publishFeedEvent _ _)).trans
      (acts_setConnected _ _ _ _)).trans (ih _)

theorem lastEventId_publishChanges : (f.publishChanges source records).lastEventId
      = (records.getLast?.map (·.eventId)).or f.lastEventId := by
  induction records generalizing f with
  | nil => rfl
  | cons record rest ih =>
    rw [publishChanges, ih]
    cases rest with
    | nil => rfl
    | cons next rest =>
      rfl

end

section
variable (hb : f.eventBus.isSome)
include hb

theorem told_publishChanges (source : FeedSource) {records : List NamespaceChange} {line : Line}
    (hl : f.log[index]? = some line) (hr : line.change ∈ records) :
    (f.publishChanges source records).Told index := by
  induction records generalizing f with
  | nil => cases hr
  | cons record rest ih =>
    have ha : Acts f (((f.markNamespaceChange record).publishFeedEvent
        (.change record source rest.isEmpty)).setConnected source (some record.eventId)
          (some record.generation)) :=
      ((acts_markNamespaceChange record f).trans (acts_publishFeedEvent _ _)).trans
        (acts_setConnected _ _ _ _)
    rcases List.mem_cons.mp hr with hr | hr
    · apply (acts_publishChanges source rest _).told
      exact (acts_setConnected _ _ _ _).told (told_change hb record source _ hl hr)
    · apply ih (ha.bus.trans hb) _ hr
      rw [ha.log]
      exact hl

section
variable (config : FeedWorkerConfig)

/-- Data that does not parse invalidates everything. -/
theorem processFeedData_malformed {data : Bytes} (h : parseFeedRecords data = none)
    (mode : FeedReadMode) :
    Acts f (f.processFeedData config data mode).2 ∧
      (∀ index, (f.processFeedData config data mode).2.Told index) ∧
      (f.processFeedData config data mode).2.lastEventId = f.lastEventId := by
  unfold processFeedData
  rw [h]
  refine ⟨?_, fun index => ?_, ?_⟩
  · exact ((acts_markAllStale _ _).trans (acts_publishFeedEvent _ _)).trans (acts_setDegraded _ _)
  · exact (acts_setDegraded _ _).told (told_coarseInvalidation hb _ _ index)
  · simp

/-- A batch is told, and the cursor moves to its end or stays. -/
theorem processRecords_spec (source : FeedSource) (cursor : Option Bytes)
    (records : List NamespaceChange) : Acts f (f.processRecords config source cursor records).2 ∧
      (∀ index line, f.log[index]? = some line → line.change ∈ records →
        (f.processRecords config source cursor records).2.Told index) ∧
      ((f.processRecords config source cursor records).2.lastEventId = f.lastEventId ∨
        (f.processRecords config source cursor records).2.lastEventId
          = (records.getLast?.map (·.eventId)).or f.lastEventId) := by
  unfold processRecords
  split
  · refine ⟨?_, fun index line _ _ => ?_, .inl ?_⟩
    · exact ((acts_markAllStale _ _).trans (acts_publishFeedEvent _ _)).trans (acts_setDegraded _ _)
    · exact (acts_setDegraded _ _).told (told_coarseInvalidation hb _ _ index)
    · simp
  · refine ⟨acts_publishChanges source records f, fun index line hl hr => ?_, .inr ?_⟩
    · exact told_publishChanges hb source hl hr
    · exact lastEventId_publishChanges source records f

/-- Whole records from the stream are told. -/
theorem processFeedData_stream (file : List Line) :
    Acts f (f.processFeedData config (file.flatMap Line.bytes) .stream).2 ∧
      (∀ index line, f.log[index]? = some line → line ∈ file →
        (f.processFeedData config (file.flatMap Line.bytes) .stream).2.Told index) ∧
      ((f.processFeedData config (file.flatMap Line.bytes) .stream).2.lastEventId = f.lastEventId ∨
        (f.processFeedData config (file.flatMap Line.bytes) .stream).2.lastEventId
          = (file.getLast?.map (·.change.eventId)).or f.lastEventId) := by
  unfold processFeedData
  rw [parseFeedRecords_flatMap_bytes]
  obtain ⟨ha, ht, hls⟩ :=
    processRecords_spec hb config .stream none (file.map Line.change)
  refine ⟨ha, fun index line hl hmm => ?_, ?_⟩
  · exact ht index line hl (List.mem_map_of_mem hmm)
  · rw [List.getLast?_map, Option.map_map] at hls
    exact hls

/-- A catch-up that is read to its end tells every change behind the cursor that is in the
file, or everything when the cursor is not there. -/
theorem processFeedData_catchUp (since : Option Bytes) (file : List Line) :
    Acts f (f.processFeedData config (file.flatMap Line.bytes) (.catchUp since)).2 ∧
      ∀ index line, f.log[index]? = some line →
        (line.change ∈ (selectFeedRecords (file.map Line.change) since
            config.cursorTemplate).records ∨
          (selectFeedRecords (file.map Line.change) since config.cursorTemplate).cursorMissed) →
        (f.processFeedData config (file.flatMap Line.bytes) (.catchUp since)).2.Told index := by
  unfold processFeedData
  rw [parseFeedRecords_flatMap_bytes]
  dsimp only
  split
  · next hm =>
    have hf : ∀ g : Feed, Acts g { g with snapshot := g.snapshot.markFreshInstance } :=
      fun g => ⟨rfl, rfl, rfl, rfl, rfl, rfl, .refl _⟩
    refine ⟨?_, fun index line _ _ => ?_⟩
    · exact (((acts_markAllStale _ _).trans (acts_publishFeedEvent _ _)).trans (hf _)).trans
        (acts_setConnected _ _ _ _)
    · exact ((hf _).trans (acts_setConnected _ _ _ _)).told (told_coarseInvalidation hb _ _ index)
  · next hm =>
    obtain ⟨ha, ht, _⟩ := processRecords_spec hb config .catchUp
      (selectFeedRecords (file.map Line.change) since config.cursorTemplate).cursorAdvancedTo
      (selectFeedRecords (file.map Line.change) since config.cursorTemplate).records
    refine ⟨ha, fun index line hl hor => ?_⟩
    rcases hor with hmm | hms
    · exact ht index line hl hmm
    · exact absurd hms hm

end

end

end Feed

end R9P.Session
