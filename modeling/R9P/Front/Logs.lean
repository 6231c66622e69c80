import R9P.Base.Runs
import R9P.Front.Growth

/-!
# Logs

Library `Front`. A log keeps the newest of its entries. `LogBody.Window` says what its queue is: a
window, up to the present end, of all the bytes that were ever appended. Reads are slices of that
window, so that a reader that goes on from where it stands sees a contiguous part of the stream or
is told that the window has passed.
-/

namespace R9P.Front
open Base Base.Checked Wire Server
open List (append_nil drop_drop length_append length_take nil_append)

/-- The bytes of a stream from an absolute offset on, when the stream begins at `base`. -/
def sliceFrom (base offset : Nat) (stream : Bytes) : Bytes := stream.drop (offset - base)

namespace LogBody

/-! ### One log -/

/-- The queue is the end of all that was appended since the offset `base`. -/
structure Window (log : LogBody) (base : Nat) (appended : Bytes) : Prop where
  base_le : base ≤ log.start
  content : log.entries.flatten = sliceFrom base log.start appended
  retained : log.retained = log.entries.flatten.length
  total : log.start + log.retained = base + appended.length

/-- A log keeps no more than it may, but for a single entry. -/
def Bounded (log : LogBody) (capacity : Nat) : Prop :=
  log.retained ≤ capacity ∨ log.entries.length ≤ 1

variable {log : LogBody} {base : Nat} {appended bytes : Bytes}

theorem window_emptyAt (base : Nat) : (emptyAt base).Window base [] :=
  ⟨le_refl base, List.drop_nil.symm, rfl, rfl⟩

theorem window_new (bytes : Bytes) : (new bytes).Window 0 bytes := by
  refine ⟨le_refl 0, ?_, ?_, ?_⟩
  · exact append_nil bytes
  · exact congrArg List.length (append_nil bytes).symm
  · rfl

/-- The oldest entry leaves the window. -/
theorem Window.tail {oldest : Bytes} {entries : List Bytes} {start retained : Nat}
    (h : Window ⟨oldest :: entries, start, retained⟩ base appended)
    (hf : base + appended.length < 2 ^ 64) :
    Window ⟨entries, (start + oldest.length) % 2 ^ 64, retained - oldest.length⟩ base appended := by
  obtain ⟨hbs, hc, hr, ht⟩ := h
  dsimp only at hbs hc hr ht
  rw [List.flatten_cons] at hc hr
  rw [length_append] at hr
  have hs : (start + oldest.length) % 2 ^ 64 = start + oldest.length :=
    Nat.mod_eq_of_lt (by omega)
  rw [hs]
  refine ⟨?_, ?_, ?_, ?_⟩
  · show base ≤ start + oldest.length
    omega
  · show entries.flatten = appended.drop (start + oldest.length - base)
    have hsk : start + oldest.length - base = start - base + oldest.length := by omega
    unfold sliceFrom at hc
    rw [hsk, ← drop_drop, ← hc, List.drop_left]
  · show retained - oldest.length = entries.flatten.length
    omega
  · show start + oldest.length + (retained - oldest.length) = base + appended.length
    omega

/-- Dropping what is too much keeps the queue a window and bounds it. -/
theorem Window.dropOldest (hf : base + appended.length < 2 ^ 64) (capacity : Nat)
    (entries : List Bytes) : ∀ start retained, Window ⟨entries, start, retained⟩ base appended →
      (LogBody.dropOldest capacity entries start retained).Window base appended ∧
        (LogBody.dropOldest capacity entries start retained).Bounded capacity := by
  induction entries with
  | nil =>
    intro start retained h
    exact ⟨h, .inr (Nat.zero_le 1)⟩
  | cons oldest entries ih =>
    intro start retained h
    cases entries with
    | nil => exact ⟨h, .inr (le_refl 1)⟩
    | cons next entries =>
      rw [LogBody.dropOldest]
      by_cases hm : retained > capacity
      · rw [if_pos hm]
        exact ih _ _ (h.tail hf)
      · rw [if_neg hm]
        exact ⟨h, .inl (Nat.le_of_not_gt hm)⟩

/-- An entry joins the window at its end. -/
theorem Window.snoc (h : log.Window base appended) (bytes : Bytes) :
    Window ⟨log.entries ++ [bytes], log.start, log.retained + bytes.length⟩ base
      (appended ++ bytes) := by
  have hbs := h.base_le
  have ht := h.total
  refine ⟨hbs, ?_, ?_, ?_⟩
  · have hsk : log.start - base ≤ appended.length := by omega
    show (log.entries ++ [bytes]).flatten = (appended ++ bytes).drop (log.start - base)
    rw [List.flatten_append, List.drop_append_of_le_length hsk, h.content]
    show _ ++ (bytes ++ []) = _
    rw [append_nil]
    rfl
  · rw [List.flatten_append, length_append, h.retained]
    show _ = _ + (bytes ++ []).length
    rw [append_nil]
  · show log.start + (log.retained + bytes.length) = base + (appended ++ bytes).length
    rw [length_append]
    omega

theorem Window.append (h : log.Window base appended) (bytes : Bytes) (capacity : Nat)
    (hf : base + (appended ++ bytes).length < 2 ^ 64) :
    (log.append bytes capacity).Window base (appended ++ bytes) ∧
      (log.append bytes capacity).Bounded capacity :=
  Window.dropOldest hf capacity _ _ _ (h.snoc bytes)

/-- The loop goes on from what it has read with the bytes behind those it passes over. -/
theorem readFrom_eq (count : Nat) (entries : List Bytes) (skip : Nat) (out : Bytes)
    (ho : out.length ≤ count) : readFrom count entries skip out =
      out ++ (entries.flatten.drop skip).take (count - out.length) := by
  induction entries generalizing skip out with
  | nil => rw [readFrom, List.flatten_nil, List.drop_nil, List.take_nil, append_nil]
  | cons entry entries ih =>
    rw [readFrom, List.flatten_cons]
    by_cases hsk : skip ≥ entry.length
    · rw [if_pos hsk, ih _ _ ho, List.drop_append, List.drop_of_length_le hsk, nil_append]
    · rw [if_neg hsk]
      have hln : (entry.drop skip).length = entry.length - skip := List.length_drop
      rw [List.drop_append_of_le_length (by omega), List.take_append, hln]
      by_cases hf : count - out.length ≤ entry.length - skip
      · -- The entry brings all that was still asked for.
        have ht : (out ++ (entry.drop skip).take (min (entry.length - skip)
            (count - out.length))).length = count := by
          rw [length_append, length_take, hln]
          omega
        have hn : count - out.length - (entry.length - skip) = 0 := by omega
        rw [if_pos ht, Nat.min_eq_right hf, hn, List.take_zero, append_nil]
      · have ha : (entry.drop skip).take (min (entry.length - skip) (count - out.length)) =
            entry.drop skip := List.take_of_length_le (by omega)
        have hr : (entry.drop skip).take (count - out.length) = entry.drop skip :=
          List.take_of_length_le (by omega)
        have hm : (out ++ entry.drop skip).length ≠ count := by
          rw [length_append, hln]
          omega
        have hs : count - (out ++ entry.drop skip).length =
            count - out.length - (entry.length - skip) := by
          rw [length_append, hln]
          omega
        rw [ha, hr, if_neg hm, ih _ _ (by rw [length_append, hln]; omega), hs,
          List.drop_zero, List.append_assoc]

/-- What is read inside the window is a slice of the stream. -/
theorem Window.read (h : log.Window base appended) {offset : Nat} (ho : log.start ≤ offset)
    (count : Nat) : log.read offset count = (sliceFrom base offset appended).take count := by
  have hbs := h.base_le
  have hsk : log.start - base + (offset - log.start) = offset - base := by omega
  unfold LogBody.read
  rw [readFrom_eq count _ _ [] (Nat.zero_le count), h.content]
  unfold sliceFrom
  rw [drop_drop, hsk, nil_append]
  rfl

theorem Window.end_eq (h : log.Window base appended) (hf : base + appended.length < 2 ^ 64) :
    log.end = base + appended.length := by
  unfold LogBody.end
  rw [h.total]
  exact Nat.mod_eq_of_lt hf

end LogBody

namespace State

/-! ### The code -/

/-- The error of a reader that the window has passed, `front.rs:1113`. -/
def windowPassed (start : Nat) : Error :=
  .fromStatic s!"log window passed: earliest retained offset {start}"

/-- The loop of `front.rs:1105`, once around: `none` while the reader waits. -/
def readLog (self : State) (id offset count : Nat) (cancelled expired : Bool) :
    Option (Result Bytes) :=
  if cancelled then some (.error (.fromStatic "request flushed"))
  else
    match self.node id with
    | .error e => some (.error e)
    | .ok node =>
      match node.body with
      | .log log =>
        if offset < log.start then some (.error (windowPassed log.start))
        else if offset < log.end then some (.ok (log.read offset count))
        else if expired then some (.ok []) else none
      | _ => some (.error (.fromStatic ENOENT))

/-! ### What an append does -/

/-- A node is a log. -/
def LogAt (s : State) (id : Nat) (log : LogBody) : Prop :=
  ∃ node, s.nodes[id]? = some node ∧ node.body = .log log

/-- Every log stays what it is, and so does the bound on logs. -/
structure KeepsLogs (s s' : State) : Prop where
  logs : ∀ id log, id < s.nextId → s.LogAt id log → s'.LogAt id log
  next : s.nextId ≤ s'.nextId
  capacity : s'.logCapacity = s.logCapacity

instance : Std.Refl KeepsLogs := ⟨fun _ => ⟨fun _ _ _ h => h, le_refl _, rfl⟩⟩

instance : IsTrans State KeepsLogs := ⟨fun _ _ _ h h' =>
  ⟨fun id log hid hlog => h'.logs id log (lt_of_lt_of_le hid h.next) (h.logs id log hid hlog),
    h.next.trans h'.next, h'.capacity.trans h.capacity⟩⟩

variable {s : State} {id : Nat} {log : LogBody}

/-- A change of one node that leaves it the log it is. -/
theorem LogAt.updateNode {other : Nat} {f : Node → Node} (h : s.LogAt id log)
    (hf : id = other → ∀ node, node.body = .log log → (f node).body = .log log) :
    (s.updateNode other f).LogAt id log := by
  obtain ⟨node, hn, hb⟩ := h
  by_cases heq : other = id
  · refine ⟨f node, ?_, hf heq.symm node hb⟩
    rw [nodes_updateNode, if_pos heq, hn]
    rfl
  · refine ⟨node, ?_, hb⟩
    rw [nodes_updateNode, if_neg heq, hn]

-- A log has no children that could change.
private theorem mapChildren_log {node : Node} (h : node.body = .log log)
    (f : Std.ExtTreeMap Bytes Nat → Std.ExtTreeMap Bytes Nat) :
    (node.mapChildren f).body = .log log := by
  unfold Node.mapChildren
  rw [h]
  rfl

theorem KeepsLogs.added (s : State) (node : Node) : KeepsLogs s (s.added node) := by
  refine ⟨?_, Nat.le_succ _, rfl⟩
  intro id log hid hl
  apply LogAt.updateNode
  · obtain ⟨found, hfn, hb⟩ := hl
    refine ⟨found, ?_, hb⟩
    rw [get_insert, if_neg (Nat.ne_of_gt hid)]
    exact hfn
  · intro _ node hb
    exact mapChildren_log hb _

theorem keepsLogs_addPlaced (name : Bytes) (parent : Nat) (body : Body) :
    Checked.Steps KeepsLogs (addPlaced name parent body) :=
  (steps_ask _).bind fun _ s => .added s _

theorem keepsLogs_ensureDir (parent : Nat) (name : Bytes) :
    Checked.Steps KeepsLogs (ensureDir parent name) := by
  refine (steps_ask _).bind fun child => ?_
  cases child with
  | none => exact keepsLogs_addPlaced name parent _
  | some existing =>
    exact (steps_ask _).bind fun _ => .ite (steps_pure _) (steps_throw _)

theorem keepsLogs_ensureDirs (segments : List Bytes) (current : Nat) :
    Checked.Steps KeepsLogs (ensureDirs current segments) := by
  induction segments generalizing current with
  | nil => exact steps_pure current
  | cons segment segments ih => exact (keepsLogs_ensureDir current segment).bind ih

/-- What an append does to a log: it takes the bytes if the call came to it, and stays what it
is otherwise. -/
def Appends (id : Nat) (log : LogBody) (bytes : Bytes) (capacity : Nat) (r : Result Nat)
    (s' : State) : Prop :=
  s'.LogAt id (if r.toOption = some id then log.append bytes capacity else log) ∧
    id < s'.nextId ∧ s'.logCapacity = capacity

theorem appends_placeOver (hl : s.LogAt id log) (hid : id < s.nextId) (other : Nat)
    (bytes : Bytes) : (placeOver other (.log (.new bytes))).wp
      (Appends id log bytes s.logCapacity) s := by
  have hs : ∀ e, Appends id log bytes s.logCapacity (.error e) s := fun e => ⟨hl, hid, rfl⟩
  refine wp_ask_bind (fun e h => nomatch h) fun capacity hc => ?_
  cases hc
  refine wp_ask_bind (fun e _ => hs e) fun node hn => ?_
  have hn := node_ok hn
  cases hb : node.body with
  | log existing =>
    refine ⟨?_, hid, rfl⟩
    by_cases heq : other = id
    · obtain ⟨found, hfn, hf⟩ := hl
      rw [heq, hfn] at hn
      cases hn
      rw [hf] at hb
      cases hb
      rw [heq]
      show (s.updateNode id _).LogAt id (if some id = some id then _ else _)
      rw [if_pos rfl]
      refine ⟨{ node with
        version := node.version + 1
        body := .log (log.append bytes s.logCapacity) }, ?_, rfl⟩
      rw [nodes_updateNode, if_pos rfl, hfn]
      rfl
    · show (s.updateNode other _).LogAt id (if some other = some id then _ else _)
      rw [if_neg fun h => heq (Option.some.inj h)]
      exact hl.updateNode fun h => absurd h.symm heq
  | dir directory | file bytes | intakeNew intake | rpc path | readRelay path
  | snapshotReadRelay path | writeRelay path => exact hs _

theorem KeepsLogs.appends {s' : State} {r : Result Nat} {bytes : Bytes} (h : KeepsLogs s s')
    (hl : s.LogAt id log) (hid : id < s.nextId) (hr : r.toOption ≠ some id) :
    Appends id log bytes s.logCapacity r s' := by
  unfold Appends
  rw [if_neg hr]
  exact ⟨h.logs id log hid hl, lt_of_lt_of_le hid h.next, h.capacity⟩

/-- An append comes to one log or to none, and leaves the others alone. -/
theorem appends_place (hl : s.LogAt id log) (hid : id < s.nextId) (path bytes : Bytes) :
    (place path (.log (.new bytes))).wp (Appends id log bytes s.logCapacity) s := by
  have hs : ∀ e, Appends id log bytes s.logCapacity (.error e) s := fun e => ⟨hl, hid, rfl⟩
  unfold place
  refine wp_ask_bind (fun e _ => hs e) fun segments _ => ?_
  refine wp_ask_bind (fun e _ => hs e) fun ⟨dirs, last⟩ _ => ?_
  refine (keepsLogs_ensureDirs dirs ROOT_ID).wp_bind
    (fun e s' hk => hk.appends hl hid nofun) fun parent s' hk => ?_
  have hl' := hk.logs id log hid hl
  have hid' := lt_of_lt_of_le hid hk.next
  rw [← hk.capacity]
  refine wp_ask_bind (fun e _ => ⟨hl', hid', rfl⟩) fun child _ => ?_
  cases child with
  | some other => exact appends_placeOver hl' hid' other bytes
  | none =>
    refine wp_ask_bind (fun e _ => ⟨hl', hid', rfl⟩) fun qidPath _ => ?_
    apply (KeepsLogs.added s' _).appends hl' hid'
    intro h
    exact absurd (Option.some.inj h) (Nat.ne_of_gt hid')

end State

/-! ### Readers -/

/-- A reader: where it began and what it has received since. -/
structure LogReader where
  first : Nat
  received : Bytes
  deriving DecidableEq, Repr

/-- Where the next read begins. -/
def LogReader.offset (self : LogReader) : Nat := self.first + self.received.length

/-- A front, all that was appended to one of its logs, and the readers of that log. -/
structure Logged where
  state : State
  appended : Bytes
  readers : Std.ExtTreeMap Nat LogReader

/-- Appends to any path, and reads of the log. -/
inductive LogAction where
  | append (path bytes : Bytes)
  | begin (reader : Nat) (offset : UInt64)
  | read (reader : Nat) (count : UInt32) (cancelled expired : Bool) (outcome : Result Bytes)

namespace Logged

/-- Whether an append comes to the log. -/
def reaches (self : Logged) (id : Nat) (path bytes : Bytes) : Prop :=
  ((State.place path (.log (.new bytes))).exec self.state).1.toOption = some id

instance (self : Logged) (id : Nat) (path bytes : Bytes) : Decidable (self.reaches id path bytes) :=
  inferInstanceAs (Decidable (_ = some id))

/-- What a reader that received an answer becomes. -/
def received (reader : LogReader) : Result Bytes → LogReader
  | .ok bytes => { reader with received := reader.received ++ bytes }
  | .error _ => reader

/-- What one action does to the log with this id. -/
inductive Step (id : Nat) : Logged → LogAction → Logged → Prop
  | append (w : Logged) (path bytes : Bytes) : Step id w (.append path bytes)
      { w with
        state := ((State.appendEvent path bytes).exec w.state).2
        appended := if w.reaches id path bytes then w.appended ++ bytes else w.appended }
  | begin (w : Logged) (reader : Nat) (offset : UInt64) : Step id w (.begin reader offset)
      { w with readers := w.readers.insert reader ⟨offset.toNat, []⟩ }
  | read (w : Logged) (name : Nat) (reader : LogReader) (count : UInt32)
      (cancelled expired : Bool) (outcome : Result Bytes) (found : w.readers[name]? = some reader)
      (answer : w.state.readLog id reader.offset count.toNat cancelled expired = some outcome) :
      Step id w (.read name count cancelled expired outcome)
        { w with readers := w.readers.insert name (received reader outcome) }

end Logged

/-- The runs of a log that begins at an offset, or with its first entry. -/
def logging (id : Nat) (base : UInt64) : System Logged LogAction where
  initial w := id < w.state.nextId ∧ w.readers = ∅ ∧
    (w.appended = [] ∧ w.state.LogAt id (.emptyAt base.toNat) ∨
      base = 0 ∧ w.appended.length < 2 ^ 64 ∧ w.state.LogAt id (.new w.appended))
  step := Logged.Step id

/-- No append takes the end of the log past what an offset can say. -/
def Addressable (base : UInt64) (w : Logged) : LogAction → Prop
  | .append _ bytes => base.toNat + w.appended.length + bytes.length < 2 ^ 64
  | _ => True

namespace Logged

/-- What an answer to a read must be. -/
def Answers (w : Logged) (base : Nat) (log : LogBody) (offset count : Nat) (cancelled : Bool) :
    Result Bytes → Prop
  | .ok bytes =>
    bytes = (sliceFrom base offset w.appended).take bytes.length ∧ bytes.length ≤ count ∧
      (bytes ≠ [] → base ≤ offset) ∧
      (bytes = [] → 0 < count → base + w.appended.length ≤ offset)
  | .error e =>
    cancelled = true ∧ e = .fromStatic "request flushed" ∨
      offset < log.start ∧ e = State.windowPassed log.start

/-- What a reader has received is a contiguous part of the stream, from where it began. -/
def Follows (w : Logged) (base : Nat) (reader : LogReader) : Prop :=
  reader.received = (sliceFrom base reader.first w.appended).take reader.received.length ∧
    (reader.received ≠ [] → base ≤ reader.first)

/-- The log is a bounded window of what was appended, and every reader follows the stream. -/
structure Gapless (id base : Nat) (w : Logged) : Prop where
  known : id < w.state.nextId
  fits : base + w.appended.length < 2 ^ 64
  log : ∃ log, w.state.LogAt id log ∧ log.Window base w.appended ∧
    log.Bounded w.state.logCapacity
  readers : ∀ (name : Nat) (reader : LogReader), w.readers[name]? = some reader →
    w.Follows base reader

variable {id base : Nat} {w w' : Logged} {action : LogAction} {outcome : Result Bytes}

/-- An answer continues the stream at the offset that was asked for. -/
theorem Gapless.answers {log : LogBody} (hf : base + w.appended.length < 2 ^ 64)
    (hl : w.state.LogAt id log) (hw : log.Window base w.appended) {offset count : Nat}
    {cancelled expired : Bool}
    (h : w.state.readLog id offset count cancelled expired = some outcome) :
    w.Answers base log offset count cancelled outcome := by
  obtain ⟨node, hn, hb⟩ := hl
  have hfn : w.state.node id = .ok node := by
    unfold State.node
    rw [hn]
    rfl
  unfold State.readLog at h
  by_cases hc : cancelled = true
  · rw [if_pos hc] at h
    cases h
    exact .inl ⟨hc, rfl⟩
  · rw [if_neg hc, hfn] at h
    dsimp only at h
    rw [hb] at h
    dsimp only at h
    by_cases hp : offset < log.start
    · rw [if_pos hp] at h
      cases h
      exact .inr ⟨hp, rfl⟩
    · rw [if_neg hp, hw.end_eq hf] at h
      by_cases hbf : offset < base + w.appended.length
      · rw [if_pos hbf] at h
        cases h
        have hs : log.start ≤ offset := Nat.le_of_not_lt hp
        have hbs := hw.base_le
        rw [hw.read hs]
        have hln : ((sliceFrom base offset w.appended).take count).length =
            min count (w.appended.length - (offset - base)) := by
          unfold sliceFrom
          rw [length_take, List.length_drop]
        refine ⟨?_, ?_, fun _ => by omega, ?_⟩
        · rw [length_take, ← List.take_take, List.take_length]
        · rw [hln]
          exact Nat.min_le_left _ _
        · intro he hcn
          rw [he, List.length_nil] at hln
          omega
      · rw [if_neg hbf] at h
        by_cases hex : expired = true
        · rw [if_pos hex] at h
          cases h
          exact ⟨rfl, Nat.zero_le _, fun hne => absurd rfl hne,
            fun _ _ => Nat.le_of_not_lt hbf⟩
        · rw [if_neg hex] at h
          cases h

/-- What was received stays a part of the stream while the stream grows. -/
theorem Follows.grow {reader : LogReader} {bytes : Bytes} (h : w.Follows base reader)
    (ha : w'.appended = w.appended ++ bytes) : w'.Follows base reader := by
  obtain ⟨hr, hf⟩ := h
  refine ⟨?_, hf⟩
  rw [ha]
  unfold sliceFrom at hr ⊢
  by_cases hw : reader.first - base ≤ w.appended.length
  · rw [List.drop_append_of_le_length hw]
    have hln : reader.received.length ≤ (w.appended.drop (reader.first - base)).length := by
      have := congrArg List.length hr
      rw [length_take] at this
      omega
    rw [List.take_append_of_le_length hln]
    exact hr
  · have hn : w.appended.drop (reader.first - base) = [] :=
      List.drop_of_length_le (by omega)
    rw [hn, List.take_nil] at hr
    rw [hr]
    rfl

/-- A reader that takes an answer goes on where it stood. -/
theorem Follows.received {reader : LogReader} {log : LogBody}
    {count : Nat} {cancelled : Bool} (h : w.Follows base reader)
    (ha : w.Answers base log reader.offset count cancelled outcome) :
    w.Follows base (Logged.received reader outcome) := by
  cases outcome with
  | error e => exact h
  | ok bytes =>
    obtain ⟨hr, hf⟩ := h
    obtain ⟨hb, _, ho, _⟩ := ha
    show reader.received ++ bytes =
        (sliceFrom base reader.first w.appended).take (reader.received ++ bytes).length ∧
      (reader.received ++ bytes ≠ [] → base ≤ reader.first)
    by_cases hn : reader.received = []
    · have hs : reader.offset = reader.first := by
        unfold LogReader.offset
        rw [hn]
        rfl
      rw [hs] at hb ho
      rw [hn, nil_append]
      exact ⟨hb, ho⟩
    · have hbs := hf hn
      refine ⟨?_, fun _ => hbs⟩
      have hnx : sliceFrom base reader.offset w.appended =
          (sliceFrom base reader.first w.appended).drop reader.received.length := by
        unfold sliceFrom LogReader.offset
        rw [drop_drop]
        congr 1
        omega
      rw [hnx] at hb
      rw [length_append, List.take_add, ← hr, ← hb]

theorem Gapless.step {base : UInt64} (h : w.Gapless id base.toNat)
    (hst : Step id w action w') (had : Addressable base w action) :
    w'.Gapless id base.toNat := by
  obtain ⟨hk, hf, ⟨log, hl, hw, hb⟩, hrd⟩ := h
  cases hst with
  | append path bytes =>
    have hap := State.appends_place hl hk path bytes
    have hs : ((State.appendEvent path bytes).exec w.state).2 =
        ((State.place path (.log (.new bytes))).exec w.state).2 := by
      unfold State.appendEvent
      rw [exec_bind]
      rcases (State.place path (.log (.new bytes))).exec w.state with ⟨r, s'⟩
      cases r <;> rfl
    obtain ⟨hl', hk', hc⟩ := hap
    have had : base.toNat + w.appended.length + bytes.length < 2 ^ 64 := had
    rw [hs]
    by_cases hrc : w.reaches id path bytes
    · have hrh : ((State.place path (.log (.new bytes))).exec w.state).1.toOption = some id :=
        hrc
      rw [if_pos hrh] at hl'
      rw [if_pos hrc]
      have hf' : base.toNat + (w.appended ++ bytes).length < 2 ^ 64 := by
        rw [length_append]
        omega
      obtain ⟨hw', hb'⟩ := hw.append bytes w.state.logCapacity hf'
      have hb' : (log.append bytes w.state.logCapacity).Bounded
          ((State.place path (.log (.new bytes))).exec w.state).2.logCapacity := by
        rwa [hc]
      exact ⟨hk', hf', ⟨_, hl', hw', hb'⟩,
        fun name reader hr => (hrd name reader hr).grow rfl⟩
    · have hm : ((State.place path (.log (.new bytes))).exec w.state).1.toOption ≠ some id :=
        hrc
      rw [if_neg hm] at hl'
      rw [if_neg hrc]
      rw [← hc] at hb
      exact ⟨hk', hf, ⟨log, hl', hw, hb⟩, hrd⟩
  | begin name offset =>
    refine ⟨hk, hf, ⟨log, hl, hw, hb⟩, ?_⟩
    intro other reader hr
    dsimp only at hr
    rw [get_insert] at hr
    split at hr
    · cases hr
      exact ⟨rfl, fun hne => absurd rfl hne⟩
    · exact hrd other reader hr
  | read name reader count cancelled expired outcome found answer =>
    refine ⟨hk, hf, ⟨log, hl, hw, hb⟩, ?_⟩
    have ha := Gapless.answers hf hl hw answer
    intro other reader' hr
    dsimp only at hr
    rw [get_insert] at hr
    split at hr
    · cases hr
      exact (hrd name reader found).received ha
    · exact hrd other reader' hr

theorem run_gapless {base : UInt64} {history : List LogAction}
    (run : ((logging id base).restrict (Addressable base)).Run history w) :
    w.Gapless id base.toNat := by
  apply run.invariant (I := fun _ w => w.Gapless id base.toNat)
  · rintro w ⟨hk, hrd, hs⟩
    have hn : ∀ (name : Nat) (reader : LogReader), w.readers[name]? = some reader →
        w.Follows base.toNat reader := by
      intro name reader hr
      rw [hrd] at hr
      cases hr
    rcases hs with ⟨he, hl⟩ | ⟨hbs, hln, hl⟩
    · refine ⟨hk, ?_, ⟨_, hl, ?_, .inr (Nat.zero_le 1)⟩, hn⟩
      · rw [he]
        exact base.toNat_lt
      · rw [he]
        exact LogBody.window_emptyAt base.toNat
    · rw [hbs]
      rw [hbs] at hn
      refine ⟨hk, ?_, ⟨_, hl, LogBody.window_new w.appended, .inr (le_refl 1)⟩, hn⟩
      rw [show (0 : UInt64).toNat = 0 from rfl, Nat.zero_add]
      exact hln
  · intro _ w action w' _ ih hst
    exact ih.step hst.2 hst.1

end Logged

/-- While offsets can say where a log ends, the log is a window of all that was appended, up to
its end; it keeps no more than its capacity, but for a single entry. What a reader receives is a
contiguous part of the stream from where it began. An answer continues the stream or says that the
window has passed, and a read of at least one byte is answered with none only at the end. -/
theorem log_is_gapless_stream (id : Nat) (base : UInt64) {history : List LogAction} {w : Logged}
    (run : ((logging id base).restrict (Addressable base)).Run history w) :
    ∃ log, w.state.LogAt id log ∧
      log.start + log.retained = base.toNat + w.appended.length ∧
      (log.retained ≤ w.state.logCapacity ∨ log.entries.length ≤ 1) ∧
      (∀ (name : Nat) (reader : LogReader), w.readers[name]? = some reader →
        w.Follows base.toNat reader) ∧
      ∀ offset count cancelled expired outcome,
        w.state.readLog id offset count cancelled expired = some outcome →
        w.Answers base.toNat log offset count cancelled outcome := by
  obtain ⟨_, hf, ⟨log, hl, hw, hb⟩, hrd⟩ := Logged.run_gapless run
  exact ⟨log, hl, hw.total, hb, hrd, fun _ _ _ _ _ h => Logged.Gapless.answers hf hl hw h⟩

/-- A front with one log that begins at an offset. -/
def logAt (start : Nat) : State := ((State.registerLogAt (utf8 "l") start).exec .new).2

/-- The log of that front. -/
def loggedBody (s : State) : Option LogBody :=
  match (s.nodes[1]?).map Node.body with
  | some (.log log) => some log
  | _ => none

private theorem logAt_of_loggedBody {s : State} {log : LogBody} (h : loggedBody s = some log) :
    s.LogAt 1 log := by
  unfold loggedBody at h
  cases hn : s.nodes[1]? with
  | none =>
    rw [hn] at h
    cases h
  | some node =>
    rw [hn] at h
    cases hb : node.body with
    | log found =>
      simp only [Option.map_some, hb] at h
      cases h
      exact ⟨node, hn, hb⟩
    | _ => simp [hb] at h

-- A log with a reader at its beginning, and one entry in it.
private theorem run_oneEntry (base : UInt64) (bytes : Bytes)
    (hs : loggedBody (logAt base.toNat) = some (.emptyAt base.toNat))
    (hk : 1 < (logAt base.toNat).nextId)
    (hrc : Logged.reaches ⟨logAt base.toNat, [], ∅⟩ 1 (utf8 "l") bytes) :
    (logging 1 base).Run [.append (utf8 "l") bytes, .begin 0 base]
      ⟨((State.appendEvent (utf8 "l") bytes).exec (logAt base.toNat)).2, bytes,
        (∅ : Std.ExtTreeMap Nat LogReader).insert 0 ⟨base.toNat, []⟩⟩ := by
  have hb : (logging 1 base).Run [.begin 0 base]
      ⟨logAt base.toNat, [], (∅ : Std.ExtTreeMap Nat LogReader).insert 0 ⟨base.toNat, []⟩⟩ :=
    .next (.start ⟨hk, rfl, .inl ⟨rfl, logAt_of_loggedBody hs⟩⟩)
      (.begin ⟨logAt base.toNat, [], ∅⟩ 0 base)
  have ha : Logged.Step 1 _ (.append (utf8 "l") bytes) _ := .append
    ⟨logAt base.toNat, [], (∅ : Std.ExtTreeMap Nat LogReader).insert 0 ⟨base.toNat, []⟩⟩
    (utf8 "l") bytes
  have hrc : Logged.reaches ⟨logAt base.toNat, [],
      (∅ : Std.ExtTreeMap Nat LogReader).insert 0 ⟨base.toNat, []⟩⟩ 1 (utf8 "l") bytes := hrc
  exact .next hb ha

/-- A step of the log while offsets can say where it ends, computed. -/
def Logged.next (id : Nat) (base : UInt64) (w : Logged) : LogAction → Option Logged
  | .append path bytes =>
    if base.toNat + w.appended.length + bytes.length < 2 ^ 64 then
      some { w with
        state := ((State.appendEvent path bytes).exec w.state).2
        appended := if w.reaches id path bytes then w.appended ++ bytes else w.appended }
    else none
  | .begin reader offset =>
    some { w with readers := w.readers.insert reader ⟨offset.toNat, []⟩ }
  | .read name count cancelled expired outcome =>
    (w.readers[name]?).bind fun reader =>
      if w.state.readLog id reader.offset count.toNat cancelled expired = some outcome then
        some { w with readers := w.readers.insert name (received reader outcome) }
      else none

theorem Logged.step_of_next {id : Nat} {base : UInt64} {w w' : Logged} {action : LogAction}
    (h : w.next id base action = some w') : Addressable base w action ∧ Step id w action w' := by
  cases action with
  | append path bytes =>
    obtain ⟨ha, h⟩ := Option.ite_none_right_eq_some.mp h
    cases h
    exact ⟨ha, .append w path bytes⟩
  | begin reader offset =>
    cases h
    exact ⟨trivial, .begin w reader offset⟩
  | read name count cancelled expired outcome =>
    obtain ⟨reader, hf, h⟩ := Option.bind_eq_some_iff.mp h
    obtain ⟨ha, h⟩ := Option.ite_none_right_eq_some.mp h
    cases h
    exact ⟨trivial, .read w name reader count cancelled expired outcome hf ha⟩

/-- A log that begins at offset 5 and keeps three bytes loses its first entry, of which a reader
has received one byte. -/
theorem log_is_gapless_stream_evicted : ∃ history w log reader,
    ((logging 1 5).restrict (Addressable 5)).Run history w ∧ w.appended = [1, 2, 3, 4] ∧
      (loggedBody w.state).map (·.start) = some 7 ∧ w.state.LogAt 1 log ∧
      log.start + log.retained = 9 ∧ w.readers[0]? = some reader ∧ reader.received = [1] ∧
      w.Follows 5 reader := by
  have hv : ([.begin 0 5, .append (utf8 "l") [1, 2], .read 0 1 false false (.ok [1]),
      .append (utf8 "l") [3, 4]].foldlM (Logged.next 1 5)
        ⟨{ logAt 5 with logCapacity := 3 }, [], ∅⟩).map (fun w => (w.appended,
          (loggedBody w.state).map (·.start), (w.readers[0]?).map (·.received))) =
      some ([1, 2, 3, 4], some 7, some [1]) := by
    decide +kernel
  obtain ⟨w, hw, hv⟩ := Option.map_eq_some_iff.mp hv
  simp only [Prod.mk.injEq] at hv
  obtain ⟨ha, hs, hr⟩ := hv
  obtain ⟨reader, hr, hrc⟩ := Option.map_eq_some_iff.mp hr
  have run := System.Run.foldlM (M := (logging 1 5).restrict (Addressable 5))
    (.start ⟨by decide +kernel, rfl, .inl ⟨rfl, logAt_of_loggedBody (by decide +kernel)⟩⟩)
    (fun _ _ _ _ h => Logged.step_of_next h) hw
  obtain ⟨log, hl, ht, _, hrd, _⟩ := log_is_gapless_stream 1 5 run
  rw [ha] at ht
  exact ⟨_, w, log, reader, run, ha, hs, hl, ht, hr, hrc, hrd 0 reader hr⟩

/-- A read of no bytes is answered with none before the end; and a log that begins at the last
offset ends, with one byte in it, at offset 0, so that a reader at its beginning gets nothing. -/
theorem log_read_empty_before_end : (∃ w, (logging 1 0).Run
        [.read 0 0 false false (.ok []), .append (utf8 "l") [1], .begin 0 0] w ∧
      w.appended = [1] ∧ w.readers[0]? = some ⟨0, []⟩) ∧
    (∃ w, (logging 1 0xffffffffffffffff).Run
        [.read 0 1 false true (.ok []), .append (utf8 "l") [1], .begin 0 0xffffffffffffffff] w ∧
      w.appended = [1] ∧ w.readers[0]? = some ⟨0xffffffffffffffff, []⟩) := by
  constructor
  · refine ⟨_, .next (run_oneEntry 0 [1] (by decide +kernel) (by decide +kernel)
      (by decide +kernel)) (.read _ 0 ⟨0, []⟩ 0 false false (.ok []) ?_ (by decide +kernel)),
      rfl, ?_⟩
    all_goals exact (get_insert ..).trans (if_pos rfl)
  · refine ⟨_, .next (run_oneEntry 0xffffffffffffffff [1] (by decide +kernel) (by decide +kernel)
      (by decide +kernel)) (.read _ 0 ⟨0xffffffffffffffff, []⟩ 1 false true (.ok []) ?_
        (by decide +kernel)), rfl, ?_⟩
    all_goals exact (get_insert ..).trans (if_pos rfl)

end R9P.Front
