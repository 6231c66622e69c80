import R9P.Session.Delivery

/-!
# One read of the change feed

Library `Session`. What `process_feed_data` of `feed/worker.rs` publishes of the records of one
read, in which order with the marks in the cache, and the cursor it returns.
-/

namespace R9P.Session
open Base Wire

namespace Feed

/-- The source that events of a read carry; `worker.rs:344`. -/
def FeedReadMode.source : FeedReadMode → FeedSource
  | .stream => .stream
  | .catchUp _ => .catchUp

/-- The marks and the changes of records; the last one completes the cursor. -/
def changes (source : FeedSource) : List NamespaceChange → List (Effect × FeedEvent)
  | [] => []
  | record :: rest =>
    (.marked record.path record.oldPath, .change record source rest.isEmpty) :: changes source rest

/-- The worker did this, in this order. -/
def Did (f f' : Feed) (done : List Effect) : Prop :=
  Acts f f' ∧ f'.effects = (done.map (f.log.length, ·)).reverse ++ f.effects

variable {f f' f'' : Feed} {done more : List Effect}

theorem Did.trans (h : Did f f' done) (h' : Did f' f'' more) : Did f f'' (done ++ more) :=
  ⟨h.1.trans h'.1, by simp [h'.2, h.2, h.1.log]⟩

theorem did_markAllStale (reason : StaleReason) (f : Feed) :
    Did f (f.markAllStale reason) (if f.cache.isSome then [.markedAll] else []) := by
  refine ⟨acts_markAllStale reason f, ?_⟩
  unfold markAllStale
  cases f.cache <;> simp [note]

/-- An event is published behind its mark. -/
theorem Did.publish {mark : Effect} (h : Did f f' (if f.cache.isSome then [mark] else []))
    (hb : f.eventBus.isSome) (event : FeedEvent) : ∃ stale,
      (stale = [] ∨ stale = [.markedAll]) ∧ Did f (f'.publishFeedEvent event)
        ((if f.cache.isSome then [mark] else []) ++ .published event :: stale) := by
  obtain ⟨bus, hbus⟩ := Option.isSome_iff_exists.mp (h.1.bus.trans hb)
  have he : ∃ stale, (stale = [] ∨ stale = [.markedAll]) ∧ (f'.publishFeedEvent event).effects =
      ((.published event :: stale).map (f'.log.length, ·)).reverse ++ f'.effects := by
    unfold publishFeedEvent
    rw [hbus]
    dsimp only
    split
    · exact ⟨[], .inl rfl, rfl⟩
    · refine ⟨if f'.cache.isSome then [.markedAll] else [], ?_, (did_markAllStale _ _).2.trans ?_⟩
      · cases f'.cache <;> simp
      · cases f'.cache <;> rfl
  obtain ⟨stale, hs, he⟩ := he
  exact ⟨stale, hs, h.trans ⟨acts_publishFeedEvent event f', he⟩⟩

variable {config : FeedWorkerConfig} {mode : FeedReadMode} {records part : List NamespaceChange}

end Feed

end R9P.Session
