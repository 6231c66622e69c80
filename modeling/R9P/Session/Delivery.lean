import R9P.Session.Telling

/-!
# No lost namespace change

Library `Session`. What the worker consumes in whole records it tells, and a cursor names a
record up to which everything was told. Between two streams it is the catch-up that keeps
this, so the worker depends on having a cursor, on an answer in time and on a file that is
read to its end.
-/

namespace R9P.Session
open Base Wire
open List (drop_drop flatMap_append getElem?_drop length_append length_drop)
open Line (bytes)

namespace Feed

/-- By the time the worker has consumed a record, every change before it was told. -/
def NoneLost (f : Feed) : Prop :=
  ∀ first, f.first = some first → ∀ index, first ≤ index → index + 1 < f.consumed → f.Told index

variable {f f' : Feed} {file : List Line}

/-! ### Files in bytes -/

theorem length_bytes_pos (line : Line) : 0 < line.bytes.length := by
  rw [bytes, length_append]
  exact Nat.succ_pos _

variable {count : Nat}

/-- As many records lie in the bytes of the first records of a file as those are. -/
theorem whole_take (h : count ≤ file.length) :
    whole file ((file.take count).flatMap bytes).length = count := by
  induction count generalizing file with
  | zero =>
    cases file with
    | nil => rfl
    | cons line rest =>
      have hp := length_bytes_pos line
      rw [whole, if_neg]
      simp only [List.take_zero, List.flatMap_nil, List.length_nil]
      omega
  | succ count ih =>
    cases file with
    | nil => simp at h
    | cons line rest =>
      rw [List.length_cons] at h
      rw [whole, List.take_succ_cons, List.flatMap_cons, length_append,
        if_pos (Nat.le_add_right _ _), Nat.add_sub_cancel_left, ih (by omega)]

theorem length_flatMap_take_le (file : List Line) {a b : Nat} (h : a ≤ b) :
    ((file.take a).flatMap bytes).length ≤ ((file.take b).flatMap bytes).length := by
  rw [← Nat.add_sub_cancel' h, List.take_add, flatMap_append, length_append]
  exact Nat.le_add_right _ _

theorem exists_take_eq (file : List Line) {size records : Nat}
    (h : size = ((file.take records).flatMap bytes).length) :
    ∃ records ≤ file.length, size = ((file.take records).flatMap bytes).length := by
  refine ⟨min records file.length, Nat.min_le_right _ _, ?_⟩
  rw [h, List.take_eq_take_min]

theorem whole_le (file : List Line) (count : Nat) : whole file count ≤ file.length := by
  induction file generalizing count with
  | nil => exact Nat.le_refl 0
  | cons line rest ih =>
    rw [whole]
    split
    · exact Nat.succ_le_succ (ih _)
    · exact Nat.zero_le _

theorem whole_zero (file : List Line) : whole file 0 = 0 :=
  whole_take (Nat.zero_le file.length)

/-- What is appended to a file is not in the bytes that were there. -/
theorem whole_append {rest : List Line} (h : count ≤ (file.flatMap bytes).length) :
    whole (file ++ rest) count = whole file count := by
  induction file generalizing count with
  | nil =>
    obtain rfl : count = 0 := Nat.le_zero.mp h
    exact whole_zero rest
  | cons line file ih =>
    rw [List.flatMap_cons, length_append] at h
    rw [List.cons_append, whole, whole, ih (by omega)]

/-! ### Cursors -/

/-- The first record the worker may have missed: behind the record of its cursor, or since it
first had a stream. -/
def behind (f : Feed) : Nat :=
  max (f.first.getD 0) (((f.sinceEventId.bind f.indexOf).map (· + 1)).getD 0)

/-- A file that begins behind the record of the cursor has no other record of its event id, which
a worker without a template would take for it. -/
def Named (config : FeedWorkerConfig) (f : Feed) (start : Nat) : Prop :=
  config.cursorTemplate = false → ∀ cursor, f.sinceEventId = some cursor →
    ∀ found, f.indexOf cursor = some found → found < start →
      ∀ line ∈ f.log.drop start, line.change.eventId ≠ cursor

/-- The worker misses nothing by itself: no record takes the event id of a cursor that is not in
the log, a read brings whole records or what does not parse, a catch-up is answered in time, to
its end, from a file that reaches back to what was missed or still has a record to show that it
does not, and a worker without a cursor has nothing to catch up with. -/
def Complete (config : FeedWorkerConfig) (f : Feed) : Action → Prop
  | .append line => line.change.eventId ∈ f.log.map (·.change.eventId) ∨
      f.sinceEventId ≠ some line.change.eventId ∧ f.lastEventId ≠ some line.change.eventId
  | .skip | .catchUpTimedOut => ∀ position, f.phase = .opened position → position ≤ f.behind
  | .catchUp window count => ∀ start, f.catchUpStart config window = some start →
      parseFeedRecords (((f.log.drop start).flatMap bytes).take count) = none ∨
      ((f.log.drop start).flatMap bytes).length ≤ count ∧ f.Named config start ∧
        (start ≤ f.behind ∨ f.sinceEventId.isSome ∧ start < f.log.length ∨
          f.log.length ≤ start ∧ ∀ position, f.phase = .opened position → position ≤ f.behind)
  | .read count => ∀ position sent, f.phase = .streaming position sent →
      let data := (((f.log.drop position).flatMap bytes).drop sent).take count
      data = [] ∨ parseFeedRecords data = none ∨
      ∃ before after, sent = (((f.log.drop position).take before).flatMap bytes).length ∧
        sent + data.length = (((f.log.drop position).take after).flatMap bytes).length
  | _ => True

/-- Nothing is being read in this phase. -/
def Idle (phase : Phase) : Prop :=
  phase = .connecting ∨ phase = .reconnecting ∨ phase = .stopped

/-- An open stream begins in the log, and every record that lies in what was read of it was
told. -/
def Aligned (f : Feed) : Prop :=
  match f.phase with
  | .opened position => position ≤ f.log.length
  | .streaming position sent => position ≤ f.log.length ∧
      sent ≤ ((f.log.drop position).flatMap bytes).length ∧
      f.ToldBelow (position + whole (f.log.drop position) sent)
  | _ => True

/-- What a complete worker keeps. -/
structure Sound (f : Feed) : Prop where
  bus : f.eventBus.isSome
  consumed : f.consumed ≤ f.log.length ∧ f.ToldBelow f.consumed
  cursor : ∀ eventId, f.sinceEventId = some eventId ∨ f.lastEventId = some eventId →
    ∀ index, f.indexOf eventId = some index → f.ToldBelow (index + 1)
  aligned : f.Aligned

theorem Sound.noneLost (h : f.Sound) : f.NoneLost :=
  fun first hf index hle hlt => h.consumed.2 first hf index hle (by omega)

variable {index : Nat}

theorem indexOf_lt {eventId : Bytes} (h : f.indexOf eventId = some index) :
    index < f.log.length := (List.findIdx?_eq_some_iff_getElem.mp h).1

variable {line : Line}

/-- A cursor is found at the first record that has it. -/
theorem indexOf_le (hl : f.log[index]? = some line) {found : Nat}
    (h : f.indexOf line.change.eventId = some found) : found ≤ index := by
  by_contra hlt
  obtain ⟨hfn, _, hb⟩ := List.findIdx?_eq_some_iff_getElem.mp h
  obtain ⟨hin, hg⟩ := List.getElem?_eq_some_iff.mp hl
  apply hb index (by omega)
  rw [hg]
  exact beq_self_eq_true _

theorem exists_indexOf (hl : line ∈ f.log) :
    ∃ found, f.indexOf line.change.eventId = some found := by
  apply Option.ne_none_iff_exists'.mp
  intro hn
  have hne := List.findIdx?_eq_none_iff.mp hn line hl
  simp at hne

theorem Sound.toldBelow_behind (h : f.Sound) : f.ToldBelow f.behind := by
  intro first hf index hle hlt
  rw [behind, hf] at hlt
  cases hc : f.sinceEventId.bind f.indexOf with
  | none =>
    rw [hc] at hlt
    simp only [Option.getD_some, Option.map_none, Option.getD_none] at hlt
    omega
  | some found =>
    obtain ⟨eventId, hs, hfn⟩ := Option.bind_eq_some_iff.mp hc
    rw [hc] at hlt
    simp only [Option.getD_some, Option.map_some] at hlt
    exact h.cursor eventId (.inl hs) found hfn first hf index hle (by omega)

/-! ### Steps -/

theorem Acts.indexOf (h : Acts f f') (eventId : Bytes) :
    f'.indexOf eventId = f.indexOf eventId := by
  unfold Feed.indexOf
  rw [h.log]

/-- A step that reads nothing, and takes no cursor the worker did not have. -/
theorem Sound.acts (h : f.Sound) (ha : Acts f f') (phase : Phase) (since : Option Bytes)
    (hc : ∀ eventId, since = some eventId ∨ f'.lastEventId = some eventId →
      f.sinceEventId = some eventId ∨ f.lastEventId = some eventId)
    (hp : Idle phase ∨ phase = f.phase) :
    Sound { f' with phase := phase, sinceEventId := since } where
  bus := ha.bus.trans h.bus
  consumed := by
    show f'.consumed ≤ f'.log.length ∧ f'.ToldBelow f'.consumed
    rw [ha.consumed, ha.log]
    exact ⟨h.consumed.1, ha.toldBelow h.consumed.2⟩
  cursor := by
    intro eventId hid index hin
    have hin : f.indexOf eventId = some index := (ha.indexOf eventId).symm.trans hin
    exact ha.toldBelow (h.cursor eventId (hc eventId hid) index hin)
  aligned := by
    unfold Aligned
    dsimp only
    rcases hp with (rfl | rfl | rfl) | rfl
    · trivial
    · trivial
    · trivial
    · have hal := h.aligned
      unfold Aligned at hal
      split at hal
      · rw [ha.log]
        exact hal
      · obtain ⟨hle, hsn, htl⟩ := hal
        have htl := ha.toldBelow htl
        rw [← ha.log] at hle hsn htl
        exact ⟨hle, hsn, htl⟩
      · trivial

/-- The lost connection is published; the cursor comes from the feed state. -/
theorem Sound.loss (h : f.Sound) (message : String) {since : Option Bytes}
    (hs : since = f.sinceEventId ∨ since = f.lastEventId.or f.sinceEventId) :
    Sound { f.publishConnectionLoss message with
      phase := .reconnecting, sinceEventId := since } := by
  have ha : Acts f (f.publishConnectionLoss message) :=
    (acts_publishFeedEvent _ _).trans (acts_setDegraded _ _)
  refine h.acts ha _ _ (fun eventId hid => ?_) (.inl (.inr (.inl rfl)))
  have hls : (f.publishConnectionLoss message).lastEventId = f.lastEventId := by
    simp [publishConnectionLoss]
  rw [hls] at hid
  rcases hid with rfl | hid
  · rcases hs with hs | hs
    · exact .inl hs.symm
    · rcases Option.or_eq_some_iff.mp hs.symm with hls | ⟨_, hs⟩
      · exact .inr hls
      · exact .inl hs
  · exact .inr hid

theorem Sound.append (h : f.Sound) (config : FeedWorkerConfig)
    (hcm : f.Complete config (.append line)) :
    Sound { f with log := f.log ++ [line] } := by
  have htl : ∀ bound ≤ f.log.length, f.ToldBelow bound →
      ({ f with log := f.log ++ [line] } : Feed).ToldBelow bound := by
    intro bound hbn ht
    refine ht.mono rfl (fun index hi => ?_) rfl (.refl _)
    exact List.getElem?_append_left (by omega)
  refine ⟨h.bus, ?_, ?_, ?_⟩
  · refine ⟨?_, htl _ h.consumed.1 h.consumed.2⟩
    rw [length_append]
    exact h.consumed.1.trans (Nat.le_add_right _ _)
  · intro eventId hid index hin
    have hne : f.indexOf eventId = none → line.change.eventId ≠ eventId := by
      rintro hn rfl
      rcases hcm with hm | ⟨hs, hls⟩
      · obtain ⟨other, hm, heq⟩ := List.mem_map.mp hm
        obtain ⟨found, hfn⟩ := exists_indexOf hm
        rw [heq, hn] at hfn
        cases hfn
      · rcases hid with hid | hid
        · exact hs hid
        · exact hls hid
    have hin : f.indexOf eventId = some index := by
      unfold Feed.indexOf at hin hne ⊢
      rw [List.findIdx?_append] at hin
      cases hfn : f.log.findIdx? (·.change.eventId == eventId) with
      | some found =>
        rw [hfn] at hin
        exact hin
      | none =>
        rw [hfn] at hin
        simp [hne hfn] at hin
    exact htl _ (indexOf_lt hin) (h.cursor eventId hid index hin)
  · have hal := h.aligned
    unfold Aligned at hal ⊢
    dsimp only
    split at hal
    · rw [length_append]
      omega
    · next position sent hp =>
      obtain ⟨hle, hsn, ht⟩ := hal
      have hw := whole_le (f.log.drop position) sent
      rw [length_drop] at hw
      rw [List.drop_append_of_le_length hle, whole_append hsn, flatMap_append, length_append,
        length_append]
      exact ⟨hle.trans (Nat.le_add_right _ _), hsn.trans (Nat.le_add_right _ _),
        htl _ (by omega) ht⟩
    · trivial

theorem Sound.opened (h : f.Sound) : Sound { f with
    phase := .opened f.log.length, first := f.first.or (some f.log.length) } := by
  have htl : ∀ bound ≤ f.log.length, f.ToldBelow bound → ({ f with
      phase := .opened f.log.length, first := f.first.or (some f.log.length) } : Feed).ToldBelow
        bound := by
    intro bound hbn ht first hf index hle hlt
    cases hfr : f.first with
    | none =>
      rw [hfr] at hf
      cases hf
      omega
    | some other =>
      rw [hfr] at hf
      cases hf
      exact (ht first hfr index hle hlt).mono rfl rfl (.refl _)
  refine ⟨h.bus, ⟨h.consumed.1, htl _ h.consumed.1 h.consumed.2⟩, ?_, Nat.le_refl _⟩
  intro eventId hid index hin
  exact htl _ (indexOf_lt hin) (h.cursor eventId hid index hin)

variable {position : Nat}

/-- The worker turns to its stream when nothing was missed. -/
theorem Sound.streams (h : f.Sound) (ho : f.phase = .opened position)
    (hb : position ≤ f.behind) : Sound { f with phase := .streaming position 0 } where
  bus := h.bus
  consumed := h.consumed
  cursor := h.cursor
  aligned := by
    have hal := h.aligned
    unfold Aligned at hal
    rw [ho] at hal
    refine ⟨hal, Nat.zero_le _, ?_⟩
    rw [whole_zero]
    exact h.toldBelow_behind.le hb

/-- Reading moves the worker on in the log. -/
theorem consume_eq (start count : Nat) (f : Feed) : ∃ consumed,
    f.consume start count = { f with consumed := consumed } ∧
      (consumed = f.consumed ∨ consumed = max f.consumed (start + whole (f.log.drop start) count) ∧
        start < f.log.length) := by
  unfold consume
  split
  · exact ⟨f.consumed, rfl, .inl rfl⟩
  · next hw =>
    refine ⟨_, rfl, .inr ⟨rfl, ?_⟩⟩
    by_contra hst
    rw [List.drop_eq_nil_of_le (by omega)] at hw
    exact hw rfl

variable {start : Nat}

theorem mem_drop (hl : f.log[index]? = some line)
    (hle : start ≤ index) : line ∈ f.log.drop start := by
  apply List.mem_of_getElem? (i := index - start)
  rw [getElem?_drop, Nat.add_sub_cancel' hle]
  exact hl

/-- When everything was told, it does not matter which cursor the worker takes. -/
theorem sound_of_toldBelow (hbs : f.eventBus.isSome)
    (hc : f.consumed ≤ f.log.length) (htl : f.ToldBelow f.log.length)
    (hps : position ≤ f.log.length) (since : Option Bytes) :
    Sound { f with phase := .streaming position 0, sinceEventId := since } where
  bus := hbs
  consumed := ⟨hc, htl.le hc⟩
  cursor := fun _ _ _ hin => htl.le (indexOf_lt (f := f) hin)
  aligned := by
    refine ⟨hps, Nat.zero_le _, ?_⟩
    rw [whole_zero]
    exact htl.le hps

variable {config : FeedWorkerConfig}

/-- The record of the cursor, as it is found in a file. -/
theorem indexOf_of_file (hnm : f.Named config start) (ht : config.cursorTemplate = false)
    {cursor : Bytes} (hs : f.sinceEventId = some cursor)
    (hfn : ((f.log.drop start).map Line.change).findIdx? (·.eventId == cursor) = some position) :
    f.indexOf cursor = some (start + position) := by
  obtain ⟨hps, hc, hmin⟩ := List.findIdx?_eq_some_iff_getElem.mp hfn
  rw [List.length_map] at hps
  rw [List.getElem_map] at hc
  have hc := eq_of_beq hc
  have hl : f.log[start + position]? = some (f.log.drop start)[position] := by
    rw [← getElem?_drop]
    exact List.getElem?_eq_getElem hps
  obtain ⟨found, hin⟩ := exists_indexOf (List.mem_of_getElem? hl)
  have hle := indexOf_le hl hin
  rw [hc] at hin
  rw [hin]
  by_contra hne
  have hlt : found < start + position := Nat.lt_of_le_of_ne hle fun heq => hne (by rw [heq])
  by_cases hst : found < start
  · exact hnm ht cursor hs found hin hst _ (List.getElem_mem hps) hc
  · -- an earlier record of the file would have been found
    obtain ⟨_, hsm, _⟩ := List.findIdx?_eq_some_iff_getElem.mp hin
    apply hmin (found - start) (by omega)
    simp only [List.getElem_map, List.getElem_drop, Nat.add_sub_cancel' (Nat.le_of_not_lt hst)]
    exact hsm

/-- A catch-up selects everything behind the cursor, or misses it. -/
theorem Sound.selected (h : f.Sound) {window : Nat}
    (hst : f.catchUpStart config window = some start) (hnm : f.Named config start)
    (hr : start ≤ f.behind ∨ f.sinceEventId.isSome ∧ start < f.log.length)
    (hf : start < f.log.length) :
    (selectFeedRecords ((f.log.drop start).map Line.change) f.sinceEventId
      config.cursorTemplate).cursorMissed ∨
    ∃ bound, f.ToldBelow bound ∧ ∀ index line, f.log[index]? = some line → bound ≤ index →
      line.change ∈ (selectFeedRecords ((f.log.drop start).map Line.change) f.sinceEventId
        config.cursorTemplate).records := by
  have hall : start ≤ f.behind → ∃ bound, f.ToldBelow bound ∧ ∀ index line,
      f.log[index]? = some line → bound ≤ index →
        line.change ∈ (f.log.drop start).map Line.change := fun hle =>
    ⟨f.behind, h.toldBelow_behind, fun index line hl hin =>
      List.mem_map_of_mem (mem_drop hl (hle.trans hin))⟩
  unfold catchUpStart feedCatchUpPath at hst
  unfold selectFeedRecords
  cases hs : f.sinceEventId with
  | none =>
    rw [hs] at hr
    have hle : start ≤ f.behind := by
      rcases hr with hle | ⟨hn, _⟩
      · exact hle
      · cases hn
    right
    split
    all_goals exact hall hle
  | some cursor =>
    cases ht : config.cursorTemplate with
    | true =>
      rw [hs, ht] at hst
      obtain ⟨found, hfn, rfl⟩ := Option.map_eq_some_iff.mp hst
      right
      apply hall
      rw [behind, hs, Option.bind_some, hfn]
      exact Nat.le_max_right _ _
    | false =>
      rw [if_neg (by simp)]
      dsimp only
      split
      · next hm =>
        left
        simpa using hf
      · next position hfn =>
        -- the first record of the file that has the cursor is the one the cursor names
        right
        have hin : f.indexOf cursor = some (start + position) := indexOf_of_file hnm ht hs hfn
        refine ⟨start + position + 1, h.cursor cursor (.inl hs) _ hin, ?_⟩
        intro index line hl hle
        rw [← List.map_drop, drop_drop]
        exact List.mem_map_of_mem (mem_drop hl (by omega))

theorem flatMap_bytes_eq_nil (h : file.flatMap bytes = []) : file = [] := by
  cases file with
  | nil => rfl
  | cons line rest =>
    have hp := length_bytes_pos line
    rw [(List.append_eq_nil_iff.mp h).1] at hp
    cases hp

theorem consumed_le (h : f.Sound) {consumed : Nat} (hc : consumed = f.consumed ∨
    consumed = max f.consumed (start + whole (f.log.drop start) count) ∧ start < f.log.length) :
    consumed ≤ f.log.length := by
  have hw := whole_le (f.log.drop start) count
  rw [length_drop] at hw
  have hle := h.consumed.1
  rcases hc with rfl | ⟨rfl, _⟩
  · exact hle
  · omega

/-- A catch-up in time and to its end tells what was missed, and so does one that does not
parse. -/
theorem Sound.caughtUp (h : f.Sound) {window : Nat}
    (ho : f.phase = .opened position) (hst : f.catchUpStart config window = some start)
    (hcm : f.Complete config (.catchUp window count)) :
    Sound { f.consumeCatchUp config start count with phase := .streaming position 0 } := by
  have hps : position ≤ f.log.length := by
    have hal := h.aligned
    unfold Aligned at hal
    rw [ho] at hal
    exact hal
  obtain ⟨consumed, hcn, hc⟩ := consume_eq start count f
  have hbs : ({ f with consumed := consumed } : Feed).eventBus.isSome := h.bus
  have hend : ∀ (f' : Feed) (since : Option Bytes), Acts { f with consumed := consumed } f' →
      f'.ToldBelow f'.log.length →
      Sound { f' with phase := .streaming position 0, sinceEventId := since } := by
    intro f' since ha hall
    have hlg : f'.log = f.log := ha.log
    apply sound_of_toldBelow (ha.bus.trans h.bus) _ hall
    · rw [hlg]
      exact hps
    · rw [ha.consumed, hlg]
      exact consumed_le h hc
  unfold consumeCatchUp
  rw [hcn]
  dsimp only
  rcases hcm start hst with hmf | ⟨hct, hnm, hr⟩
  · rw [if_neg fun hem => by
      rw [List.isEmpty_iff.mp hem, ← List.flatMap_nil (f := bytes),
        parseFeedRecords_flatMap_bytes] at hmf
      cases hmf]
    obtain ⟨ha, htl, _⟩ := processFeedData_malformed hbs config hmf (.catchUp f.sinceEventId)
    exact hend (Prod.snd _) _ ha fun _ _ index _ _ => htl index
  · rw [List.take_of_length_le hct]
    by_cases hf : f.log.length ≤ start
    · -- the file is empty, and nothing was missed
      have hb : position ≤ f.behind := by
        rcases hr with hle | ⟨_, hlt⟩ | ⟨_, hb⟩
        · omega
        · omega
        · exact hb position ho
      rcases hc with rfl | ⟨_, hlt⟩
      · rw [List.drop_eq_nil_of_le hf]
        exact (h.streams ho hb).acts (acts_setConnected .catchUp none none _) _
          f.sinceEventId (fun _ hid => hid) (.inr rfl)
      · omega
    · have hne : ((f.log.drop start).flatMap bytes).isEmpty = false := by
        cases hn : (f.log.drop start).flatMap bytes with
        | nil =>
          have hd := List.drop_eq_nil_iff.mp (flatMap_bytes_eq_nil hn)
          omega
        | cons byte rest => rfl
      rw [if_neg (by rw [hne]; decide)]
      have hr : start ≤ f.behind ∨ f.sinceEventId.isSome ∧ start < f.log.length := by
        rcases hr with hle | hs | ⟨hle, _⟩
        · exact .inl hle
        · exact .inr hs
        · omega
      obtain ⟨ha, htl⟩ :=
        processFeedData_catchUp hbs config f.sinceEventId (f.log.drop start)
      apply hend (Prod.snd _) _ ha
      rw [ha.log]
      rcases h.selected hst hnm hr (by omega) with hm | ⟨bound, hbn, hsl⟩
      · intro first _ index _ hlt
        exact htl index _ (List.getElem?_eq_getElem hlt) (.inr hm)
      · apply (ha.toldBelow (f := { f with consumed := consumed }) hbn).extend
        intro index hle hlt
        have hl := List.getElem?_eq_getElem hlt
        exact htl index _ hl (.inl (hsl index _ hl hle))

variable {before after : Nat}

/-- Between the ends of two records lie the records between them. -/
theorem drop_take_flatMap_bytes (he : ((file.take before).flatMap bytes).length
      + (((file.flatMap bytes).drop
          ((file.take before).flatMap bytes).length).take count).length
      = ((file.take after).flatMap bytes).length) (hle : before ≤ after) :
    ((file.flatMap bytes).drop ((file.take before).flatMap bytes).length).take count
      = ((file.drop before).take (after - before)).flatMap bytes := by
  have hd : (file.flatMap bytes).drop ((file.take before).flatMap bytes).length
      = (file.drop before).flatMap bytes := by
    conv_lhs => rw [← List.take_append_drop before file]
    rw [flatMap_append]
    simp
  rw [hd] at he ⊢
  rw [← Nat.add_sub_cancel' hle, List.take_add, flatMap_append, length_append] at he
  have hl := Nat.add_left_cancel he
  have hb : ((file.drop before).take (after - before)).flatMap bytes
      <+: (file.drop before).flatMap bytes := by
    refine ⟨((file.drop before).drop (after - before)).flatMap bytes, ?_⟩
    rw [← flatMap_append, List.take_append_drop]
  exact (List.prefix_of_prefix_length_le (List.take_prefix _ _) hb hl.le).eq_of_length hl

/-- The records of a stream between two places. -/
theorem mem_between (hl : f.log[index]? = some line) (hle : position + before ≤ index)
    (hlt : index < position + after) :
    line ∈ ((f.log.drop position).drop before).take (after - before) := by
  rw [drop_drop]
  apply List.mem_of_getElem? (i := index - (position + before))
  rw [List.getElem?_take_of_lt (by omega), getElem?_drop, Nat.add_sub_cancel' hle]
  exact hl

section
variable {sent consumed : Nat} (hps : position ≤ f.log.length)
include hps

/-- The worker moves on in its stream when what it has read was told, and the record that its
cursor names with it. -/
theorem Sound.advance (h : f.Sound)
    (hsn : sent ≤ ((f.log.drop position).flatMap bytes).length)
    (hc : consumed = f.consumed ∨ consumed = max f.consumed
      (position + whole (f.log.drop position) sent) ∧ position < f.log.length)
    (ha : Acts { f with consumed := consumed } f')
    (hall : f'.ToldBelow (position + whole (f.log.drop position) sent))
    (hcr : ∀ eventId, f'.lastEventId = some eventId → f.lastEventId = some eventId ∨
      ∀ index, f.indexOf eventId = some index → f'.ToldBelow (index + 1)) :
    Sound { f' with phase := .streaming position sent } := by
  have hlg : f'.log = f.log := ha.log
  have hk : ∀ bound, f.ToldBelow bound → f'.ToldBelow bound := fun bound hb =>
    ha.toldBelow (f := { f with consumed := consumed }) hb
  refine ⟨ha.bus.trans h.bus, ?_, ?_, ?_⟩
  · show f'.consumed ≤ f'.log.length ∧ f'.ToldBelow f'.consumed
    have hsm : f'.consumed = consumed := ha.consumed
    rw [hsm, hlg]
    refine ⟨consumed_le h hc, ?_⟩
    rcases hc with rfl | ⟨rfl, _⟩
    · exact hk _ h.consumed.2
    · rcases max_choice f.consumed (position + whole (f.log.drop position) sent) with hm | hm
      · rw [hm]
        exact hk _ h.consumed.2
      · rw [hm]
        exact hall
  · intro eventId hid index hin
    have hin : f.indexOf eventId = some index := (ha.indexOf eventId).symm.trans hin
    rcases hid with hid | hid
    · exact hk _ (h.cursor eventId (.inl (ha.since.symm.trans hid)) index hin)
    · rcases hcr eventId hid with hid | htl
      · exact hk _ (h.cursor eventId (.inr hid) index hin)
      · exact htl index hin
  · show position ≤ f'.log.length ∧ sent ≤ ((f'.log.drop position).flatMap bytes).length ∧
      f'.ToldBelow (position + whole (f'.log.drop position) sent)
    rw [hlg]
    exact ⟨hps, hsn, hall⟩

/-- The records between two places of the stream are told, and the cursor moves with them. -/
theorem Sound.brought (h : f.Sound) (htl : f.ToldBelow (position + before)) (hle : before ≤ after)
    (haf : after ≤ (f.log.drop position).length)
    (hsn : sent = (((f.log.drop position).take after).flatMap bytes).length)
    (hc : consumed = f.consumed ∨ consumed = max f.consumed
      (position + whole (f.log.drop position) sent) ∧ position < f.log.length) :
    Sound { (({ f with consumed := consumed } : Feed).processFeedData config
        ((((f.log.drop position).drop before).take (after - before)).flatMap bytes) .stream).2
      with phase := .streaming position sent } := by
  obtain ⟨ha, ht, hls⟩ := processFeedData_stream
    (f := { f with consumed := consumed }) h.bus config
    (((f.log.drop position).drop before).take (after - before))
  generalize (({ f with consumed := consumed } : Feed).processFeedData config _ .stream).2 = f'
    at ha ht hls ⊢
  have hw : whole (f.log.drop position) sent = after := by
    rw [hsn]
    exact whole_take haf
  rw [length_drop] at haf
  have hall : f'.ToldBelow (position + after) := by
    apply (ha.toldBelow (f := { f with consumed := consumed }) htl).extend
    intro index hi hlt
    have hl := List.getElem?_eq_getElem (l := f.log) (i := index) (by omega)
    exact ht index _ hl (mem_between hl hi hlt)
  apply h.advance hps _ hc ha
  · rw [hw]
    exact hall
  · intro eventId hid
    rcases hls with hls | hls
    · exact .inl (hls.symm.trans hid)
    · rw [hls] at hid
      rcases Option.or_eq_some_iff.mp hid with hln | ⟨_, hid⟩
      · -- the cursor is now the last record that was brought
        right
        intro index hin
        obtain ⟨line, hl, rfl⟩ := Option.map_eq_some_iff.mp hln
        have hm := List.mem_of_getLast? hl
        rw [drop_drop] at hm
        obtain ⟨place, hp⟩ := List.mem_iff_getElem?.mp hm
        have hbn : place < after - before := by
          have := (List.getElem?_eq_some_iff.mp hp).1
          rw [List.length_take] at this
          omega
        rw [List.getElem?_take_of_lt hbn, getElem?_drop] at hp
        exact hall.le (by have := indexOf_le hp hin; omega)
      · exact .inl hid
  · rw [hsn]
    have hs := length_flatMap_take_le (f.log.drop position) haf
    rwa [← length_drop, List.take_length] at hs

end

/-- A read tells what it brings, in whole records or in what does not parse. -/
theorem Sound.streamed (h : f.Sound) {sent : Nat}
    (hp : f.phase = .streaming position sent) (hcm : f.Complete config (.read count)) :
    Sound { f.consumeStream config position sent count with
      phase := .streaming position
        (sent + ((((f.log.drop position).flatMap bytes).drop sent).take count).length) } := by
  have hcm := hcm position sent hp
  have hal := h.aligned
  unfold Aligned at hal
  rw [hp] at hal
  obtain ⟨hps, hsn, htl⟩ := hal
  have hsm : sent + ((((f.log.drop position).flatMap bytes).drop sent).take count).length
      ≤ ((f.log.drop position).flatMap bytes).length := by
    rw [List.length_take, length_drop]
    omega
  unfold consumeStream
  dsimp only at hcm ⊢
  generalize hd : (((f.log.drop position).flatMap bytes).drop sent).take count = data
    at hcm hsm ⊢
  obtain ⟨consumed, hcn, hc⟩ := consume_eq position (sent + data.length) f
  rw [hcn]
  by_cases hem : data = []
  · rw [if_pos (List.isEmpty_iff.mpr hem)]
    subst hem
    exact h.advance hps hsm hc (acts_setConnected _ _ _ _) htl fun _ hid => .inl hid
  · rw [if_neg fun hn => hem (List.isEmpty_iff.mp hn)]
    rcases hcm.resolve_left hem with hmf | ⟨before, after, hbf, he⟩
    · obtain ⟨ha, ht, hls⟩ := processFeedData_malformed
        (f := { f with consumed := consumed }) h.bus config hmf .stream
      exact h.advance hps hsm hc ha (fun _ _ index _ _ => ht index)
        fun _ hid => .inl (hls.symm.trans hid)
    · obtain ⟨before, hin, rfl⟩ := exists_take_eq (f.log.drop position) hbf
      obtain ⟨after, haf, he⟩ := exists_take_eq (f.log.drop position) he
      rw [whole_take hin] at htl
      have hle : before ≤ after := by
        by_contra hlt
        have hs := length_flatMap_take_le (f.log.drop position) (Nat.le_of_not_le hlt)
        have hps := List.length_pos_iff.mpr hem
        omega
      have hdt := drop_take_flatMap_bytes (by rw [hd]; exact he) hle
      rw [hd] at hdt
      subst hdt
      exact h.brought hps htl hle haf he hc

theorem Sound.step (h : f.Sound) {action : Action}
    (hcm : f.Complete config action) (hs : f.next config action = some f') :
    f'.Sound := by
  have hsm : ∀ eventId, f.sinceEventId = some eventId ∨ f.lastEventId = some eventId →
      f.sinceEventId = some eventId ∨ f.lastEventId = some eventId := fun _ hid => hid
  have hbs : ∀ change : FeedEventBus → FeedEventBus, Acts f { f with
      eventBus := f.eventBus.map change } := fun change =>
    ⟨rfl, rfl, rfl, rfl, rfl, by simp, List.Subset.refl _⟩
  unfold next at hs
  split at hs
  · cases hs
    exact h.append config hcm
  · cases hs
    exact h.acts (hbs _) _ _ hsm (.inr rfl)
  · cases hs
    exact h.acts (hbs _) _ _ hsm (.inr rfl)
  · cases hs
    exact h.acts (hbs _) _ _ hsm (.inr rfl)
  · cases hs
    exact h.acts (acts_setDegraded _ _) _ _ hsm (.inr rfl)
  · cases hs
    exact h.loss _ (.inl ((acts_publishFeedEvent _ _).trans (acts_setDegraded _ _)).since)
  · cases hs
    exact h.opened
  · next position hp =>
    split at hs
    · cases hs
    · cases hs
      exact h.streams hp (hcm position hp)
  · next window count position hp =>
    split at hs
    · cases hs
    · next start hst =>
      split at hs
      · cases hs
        exact h.caughtUp hp hst hcm
      · cases hs
  · next position hp =>
    split at hs
    · cases hs
      exact h.streams hp (hcm position hp)
    · cases hs
  · split at hs
    · cases hs
      exact h.loss _ (.inl ((acts_publishFeedEvent _ _).trans (acts_setDegraded _ _)).since)
    · cases hs
  · next count position sent hp =>
    split at hs
    · cases hs
      exact h.streamed hp hcm
    · cases hs
  · cases hs
    exact h.acts (acts_setConnected _ none none _) _ _ hsm (.inr rfl)
  · cases hs
    exact h.loss _ (.inr rfl)
  · cases hs
    exact h.acts (.refl f) _ _ hsm (.inl (.inl rfl))
  · cases hs
    exact h.acts (acts_setDegraded _ _) _ _ hsm (.inl (.inl rfl))
  · cases hs
    exact h.acts (.refl f) _ _ hsm (.inl (.inr (.inr rfl)))
  · cases hs

theorem Initial.sound (h : f.Initial) : f.Sound where
  bus := h.bus
  consumed := by
    rw [h.consumed]
    exact ⟨Nat.zero_le _, fun _ _ _ _ hlt => absurd hlt (Nat.not_lt_zero _)⟩
  cursor := by
    intro _ _ _ _ first hfr
    rw [h.first] at hfr
    cases hfr
  aligned := by
    unfold Aligned
    rw [h.phase]
    trivial

/-! ### A worker at work -/

def firstLine : Line where
  text := utf8 "namespace_change\te1\t1\tshared\tmodified\t/a"
  change := ⟨utf8 "shared", utf8 "/a", utf8 "modified", 1, utf8 "e1", none⟩
  valid := by decide +kernel
  single := by decide +kernel
  bare := by decide +kernel
  parsed := by decide +kernel

def secondLine : Line where
  text := utf8 "namespace_change\tevent_id=e2\tgeneration=2\tscope=shared\tkind=created\tpath=/b"
  change := ⟨utf8 "shared", utf8 "/b", utf8 "created", 2, utf8 "e2", none⟩
  valid := by decide +kernel
  single := by decide +kernel
  bare := by decide +kernel
  parsed := by decide +kernel

def thirdLine : Line where
  text := utf8 "namespace_change\te3\t3\tshared\trenamed\t/a\t/c"
  change := ⟨utf8 "shared", utf8 "/c", utf8 "renamed", 3, utf8 "e3", some (utf8 "/a")⟩
  valid := by decide +kernel
  single := by decide +kernel
  bare := by decide +kernel
  parsed := by decide +kernel

/-- A worker with a subscriber, on an empty log. -/
def started : Feed where
  log := []
  phase := .connecting
  sinceEventId := none
  snapshot := ⟨.connecting, none, none, none, none, false⟩
  cache := some .new
  eventBus := some ⟨[[]], 16⟩
  first := none
  effects := []
  consumed := 0

theorem initial_started : started.Initial := ⟨rfl, rfl, rfl, rfl, rfl, rfl⟩

/-- A cursor template, a limit on batches, and no catch-up before the first record. -/
def cursorConfig : FeedWorkerConfig := ⟨true, 16, false⟩

theorem step_read {sent : Nat}
    (hp : f.phase = .streaming position sent) (hct : count ≤ READ_COUNT) :
    (feeding config).step f (.read count) { f.consumeStream config position sent count with
      phase := .streaming position
        (sent + ((((f.log.drop position).flatMap bytes).drop sent).take count).length) } := by
  show f.next config (.read count) = _
  unfold next
  rw [hp]
  exact if_pos hct

theorem foldlM_run {labels : List Action} (h : labels.foldlM (next config) started = some f) :
    (feeding config).Run labels.reverse f := by
  have run := (System.Run.start (M := feeding config) initial_started).foldlM
    (fun _ _ _ _ hn => hn) h
  rwa [List.append_nil] at run

/-- In every run of a worker that misses nothing by itself, no change is lost. -/
theorem no_change_lost {config : FeedWorkerConfig} {history : List Action}
    (run : ((feeding config).restrict (Complete config)).Run history f) : f.NoneLost := by
  apply Sound.noneLost
  apply run.invariant (I := fun _ => Sound)
  · intro f hf
    exact hf.sound
  · intro _ f action f' _ hsn hs
    exact hsn.step hs.1 hs.2

theorem no_change_lost_streamed : ∃ f, ((feeding cursorConfig).restrict (Complete cursorConfig)).Run
      [.read 65536, .append secondLine, .append firstLine, .skip, .open] f ∧
    f.first = some 0 ∧ f.consumed = 2 ∧ f.NoneLost := by
  have hr : ∃ f, ((feeding cursorConfig).restrict (Complete cursorConfig)).Run
      [.read 65536, .append secondLine, .append firstLine, .skip, .open] f ∧
      f.first = some 0 ∧ f.consumed = 2 := by
    refine ⟨_, .next (.next (.next (.next (.next (.start initial_started) ⟨trivial, rfl⟩)
      ⟨?skip, rfl⟩) ⟨?first, rfl⟩) ⟨?second, rfl⟩)
      ⟨?read, step_read rfl (by decide)⟩, by decide +kernel, by decide +kernel⟩
    case skip =>
      intro position hps
      cases hps
      exact Nat.zero_le _
    case first => exact .inr ⟨nofun, nofun⟩
    case second => exact .inr ⟨nofun, nofun⟩
    case read =>
      intro position sent hp
      cases hp
      exact .inr (.inr ⟨0, 2, by decide +kernel, by decide +kernel⟩)
  obtain ⟨f, run, hfr, hc⟩ := hr
  exact ⟨f, run, hfr, hc, no_change_lost run⟩

/-- The catch-up behind a lost connection times out: the change of the meantime is passed over,
and the worker goes on with the next one. -/
theorem timed_out_catch_up_loses : ∃ f, (feeding cursorConfig).Run
      [.read 65536, .append thirdLine, .catchUpTimedOut, .open, .append secondLine, .reconnected,
        .readFailed "connection reset", .read 65536, .append firstLine, .skip, .open] f ∧
    f.first = some 0 ∧ f.consumed = 3 ∧ ¬ f.Told 1 := by
  have hv : ([Action.open, .skip, .append firstLine, .read 65536,
      .readFailed "connection reset", .reconnected, .append secondLine, .open, .catchUpTimedOut,
      .append thirdLine, .read 65536].foldlM (next cursorConfig) started).map
        (fun f => (f.first, f.consumed, f.log[1]?.map (·.change), f.effects))
      = some (some 0, 3, some secondLine.change,
        [(3, .published (.change thirdLine.change .stream true)),
          (3, .marked (utf8 "/c") (some (utf8 "/a"))),
          (1, .published (.coarseInvalidation "change feed connection lost")),
          (1, .published (.change firstLine.change .stream true)),
          (1, .marked (utf8 "/a") none)]) := by
    decide +kernel
  obtain ⟨f, hr, hf⟩ := Option.map_eq_some_iff.mp hv
  obtain ⟨hfr, hf⟩ := Prod.mk.inj hf
  obtain ⟨hc, hf⟩ := Prod.mk.inj hf
  obtain ⟨hl, he⟩ := Prod.mk.inj hf
  refine ⟨f, foldlM_run hr, hfr, hc, fun htl => ?_⟩
  obtain ⟨line, hl, hch⟩ := Option.map_eq_some_iff.mp hl
  obtain ⟨time, ht, htl⟩ := htl line hl
  rw [he, hch] at htl
  rcases htl with ⟨⟨source, complete, hm⟩, _⟩ | ⟨⟨reason, hm⟩, _⟩
  · have hne : secondLine.change ≠ thirdLine.change ∧ secondLine.change ≠ firstLine.change := by
      decide +kernel
    simp [hne] at hm
  · simp at hm
    omega

end Feed

end R9P.Session
