import R9P.Client.Tags
import R9P.Wire.Layout

/-!
# Walks of the multiplexed client

Library `Multiplex`. `MultiplexedClient::walk` of `crates/core/src/multiplex/client.rs` on a
connection that works: a request is built, encoded and answered, one at a time. The names of a
walk go out in one `Twalk`, whatever their number.
-/

namespace R9P.Multiplex
open Base Base.Checked Wire Server Client

/-- A protocol client and the server at the other end. -/
structure Connection (σ : Type) where
  protocol : Client
  server : σ

namespace Connection

variable {σ α : Type} (respond : TMessage → σ → RMessage × σ) (debug : Bytes → Bytes)

/-- `client_support.rs:13`. -/
def protocolError (error : Error) : Error := ⟨utf8 "9P client state: " ++ error.message⟩

/-- A request is built behind the lock of the protocol client. -/
def build (request : Checked Client Error Op) : Checked (Connection σ) Error Op :=
  .ofExec fun self =>
    (((request.exec self.protocol).1).mapError protocolError,
      { self with protocol := (request.exec self.protocol).2 })

/-- The server answers. -/
def exchange (message : TMessage) : Checked (Connection σ) Error RMessage :=
  .ofExec fun self =>
    (.ok (respond message self.server).1,
      { self with server := (respond message self.server).2 })

/-- The reader thread takes the response. -/
def take (response : RMessage) : Checked (Connection σ) Error ClientResponse :=
  .ofExec fun self =>
    (((receive response).exec self.protocol).1,
      { self with protocol := ((receive response).exec self.protocol).2 })

/-- `calls.rs:4` over `submit_message`, `client.rs:293`. -/
def callOp (op : Op) : Checked (Connection σ) Error Completion := do
  .refuseIf (op.tag = NOTAG) (.fromStatic "multiplexed calls require a real tag")
  let frame ← .ask fun self : Connection σ =>
    .ok (encodeTMessageChecked op.message self.protocol.msize)
  match frame with
  | .error error =>
    .update fun self => { self with protocol := self.protocol.abandon op.tag }
    throw ⟨utf8 "encode 9P frame: " ++ error.message⟩
  | .ok _ =>
    let response ← exchange respond op.message
    match ← take response with
    | .completion tag completion =>
      .refuseIf (tag ≠ op.tag) (.fromStatic "response tag mismatch or unexpected response")
      pure completion
    | .error tag ename =>
      .refuseIf (tag ≠ op.tag) (.fromStatic "response tag mismatch or unexpected response")
      throw ⟨ename⟩

/-- `client.rs:977` and `client.rs:988`. -/
def clunk (fid : Fid) : Checked (Connection σ) Error Unit := do
  let op ← build (Client.clunk fid)
  match ← callOp respond op with
  | .clunk => pure ()
  | _ => throw (.fromStatic "expected Rclunk")

/-- `client.rs:467`. -/
def release (fid : Fid) : Checked (Connection σ) Error Unit := do
  let _ ← (clunk respond fid).attempt

/-- `client.rs:418`. The inner error is the number of names the server did accept. -/
def walkShort (fid : Fid) (names : List Bytes) : Checked (Connection σ) Error (Except Nat Fid) := do
  let op ← build (Client.walk fid names)
  let newfid ← .ask fun _ => okOr op.fid "9P operation did not allocate a fid"
  match ← callOp respond op with
  | .walk qids =>
    if qids.length = names.length then pure (.ok newfid)
    else
      release respond newfid
      pure (.error qids.length)
  | _ =>
    release respond newfid
    throw (.fromStatic "expected Rwalk")

/-- `client.rs:446`: the name a walk stopped at is walked alone, to be told why. -/
def walkRefusal (fid : Fid) (names : List Bytes) (walked : Nat) :
    Checked (Connection σ) Error (Option Error) := do
  match names[walked]? with
  | none => pure none
  | some stopped =>
    match ← (walkShort respond fid (names.take walked)).attempt with
    | .ok (.ok reached) =>
      let refusal ← match ← (walkShort respond reached [stopped]).attempt with
        | .ok (.ok found) => do
          release respond found
          pure none
        | .ok (.error _) => pure none
        | .error error => pure (some error)
      release respond reached
      pure refusal
    | _ => pure none

/-- `client_support.rs:38`. The name is shown as the `Debug` formatter writes it. -/
def partialWalk (names : List Bytes) (walked : Nat) (reason : Option Error) : Error :=
  let stopped := debug (names[walked]?.getD (utf8 "?"))
  let place := utf8 "partial walk: stopped at " ++ stopped ++
    utf8 s!" ({walked + 1} of {names.length})"
  match reason with
  | some reason => ⟨place ++ utf8 ": " ++ reason.message⟩
  | none => ⟨place ++ utf8 ", and walking it alone did not say why"⟩

/-- `client.rs:395` and `client.rs:406`. -/
def walk (fid : Fid) (names : List Bytes) : Checked (Connection σ) Error Fid := do
  match ← walkShort respond fid names with
  | .ok newfid => pure newfid
  | .error walked =>
    let refusal ← walkRefusal respond fid names walked
    throw (partialWalk debug names walked refusal)

/-- `client.rs:357` and `client.rs:361`. -/
def cloneFid (fid : Fid) : Checked (Connection σ) Error Fid := walk respond debug fid []

end Connection

/-- A server of a tree of files: which file a fid stands for, and that a walk along names that
exist leads the new fid to the file reached one name at a time. -/
structure TreeServer (σ ν : Type) where
  root : ν
  child : ν → Bytes → Option ν
  fids : σ → Fid → Option ν
  respond : TMessage → σ → RMessage × σ
  walk_found : ∀ {server : σ} {tag : Tag} {fid newfid : Fid} {names : List Bytes} {start node : ν},
    names.length ≤ MAXWELEM → fids server fid = some start → fids server newfid = none →
      names.foldlM child start = some node → ∃ qids after,
        respond (.walk tag fid newfid names) server = (.walk tag qids, after) ∧
          qids.length = names.length ∧ fids after newfid = some node

/-! ### A walk that fits one message -/

/-- The size of the `Twalk` of names. -/
def walkSize (names : List Bytes) : Nat := 17 + (names.map fun name => 2 + name.length).sum

theorem length_walk_frame (tag : Tag) (fid newfid : Fid) (names : List Bytes) :
    (frameBytes TWALK tag (TMessage.walk tag fid newfid names).body).length = walkSize names := by
  have hn : (names.flatMap stringBytes).length = (names.map fun name => 2 + name.length).sum := by
    rw [List.length_flatMap]
    simp [stringBytes]
  simp only [frameBytes, TMessage.body, List.length_append, List.length_cons, length_leBytes,
    u16Bytes, u32Bytes, hn, walkSize]
  omega

theorem length_walk_body (tag : Tag) (fid newfid : Fid) (names : List Bytes) :
    7 + (TMessage.walk tag fid newfid names).body.length = walkSize names := by
  rw [← length_walk_frame tag fid newfid names, frameBytes, List.length_append, length_leBytes,
    List.length_cons, List.length_append, u16Bytes, length_leBytes]
  omega

variable {names : List Bytes}

theorem walkSize_le (hn : ∀ name ∈ names, name.length ≤ 65535) :
    walkSize names ≤ 17 + 65537 * names.length := by
  unfold walkSize
  induction names with
  | nil => exact Nat.le_refl _
  | cons name names ih =>
    have hnm := hn name List.mem_cons_self
    have hr := ih fun other ho => hn other (List.mem_cons_of_mem _ ho)
    simp only [List.map_cons, List.sum_cons, List.length_cons]
    omega

theorem walkSize_lt (hc : names.length ≤ MAXWELEM) (hn : ∀ name ∈ names, name.length ≤ 65535) :
    walkSize names < 2 ^ 32 := by
  have hs := walkSize_le hn
  have hm : MAXWELEM = 16 := rfl
  omega

/-- A walk of at most sixteen names that fits the message size is sent. -/
theorem encode_walk {msize : UInt32} (tag : Tag) (fid newfid : Fid) (hc : names.length ≤ MAXWELEM)
    (hn : ∀ name ∈ names, name.length ≤ 65535) (hs : walkSize names ≤ msize.toNat) :
    ∃ frame, encodeTMessageChecked (.walk tag fid newfid names) msize = .ok frame := by
  have hm := msize.toNat_lt
  have hl := length_walk_frame tag fid newfid names
  have hb := length_walk_body tag fid newfid names
  refine ⟨frameBytes TWALK tag (TMessage.walk tag fid newfid names).body, ?_⟩
  unfold encodeTMessageChecked
  refine bind_ok.mpr ⟨_, (encodeTMessage_ok_iff _ _).mpr ⟨⟨⟨hc, ?_⟩, ?_⟩, rfl⟩, ?_⟩
  · intro name hnm
    exact Nat.lt_succ_of_le (hn name hnm)
  · rw [hb]
    omega
  · show checkMsize msize (frameBytes TWALK tag (TMessage.walk tag fid newfid names).body) = _
    unfold checkMsize tryU32
    rw [hl, if_pos (by omega)]
    show (if UInt32.ofNat (walkSize names) > msize then _ else _) = _
    rw [if_neg]
    intro hgt
    have hsm : walkSize names < 2 ^ 32 := Nat.lt_of_le_of_lt hs hm
    rw [gt_iff_lt, UInt32.lt_iff_toNat_lt, UInt32.toNat_ofNat_of_lt' hsm] at hgt
    omega

/-- A walk of more names, or one that does not fit, is refused before it is sent. -/
theorem encode_walk_refused {msize : UInt32} (tag : Tag) (fid newfid : Fid)
    (hn : ∀ name ∈ names, name.length ≤ 65535)
    (h : ¬ (names.length ≤ MAXWELEM ∧ walkSize names ≤ msize.toNat)) :
    ∃ message ∈ ["name too long", "frame exceeds msize"],
      encodeTMessageChecked (.walk tag fid newfid names) msize = .error (.fromStatic message) := by
  by_cases hc : names.length ≤ MAXWELEM
  · have hsz : msize.toNat < walkSize names := by
      by_contra hs
      exact h ⟨hc, not_lt.mp hs⟩
    have hsm := walkSize_lt hc hn
    refine ⟨"frame exceeds msize", by decide, ?_⟩
    have he := (encodeTMessage_ok_iff (.walk tag fid newfid names) _).mpr
      ⟨⟨⟨hc, fun name hnm => Nat.lt_succ_of_le (hn name hnm)⟩, by
        rw [length_walk_body]
        exact hsm⟩, rfl⟩
    unfold encodeTMessageChecked
    rw [he]
    show checkMsize msize (frameBytes TWALK tag (TMessage.walk tag fid newfid names).body) = _
    unfold checkMsize tryU32
    rw [length_walk_frame, if_pos hsm]
    show (if UInt32.ofNat (walkSize names) > msize then _ else _) = _
    rw [if_pos]
    rw [gt_iff_lt, UInt32.lt_iff_toNat_lt, UInt32.toNat_ofNat_of_lt' hsm]
    exact hsz
  · refine ⟨"name too long", by decide, ?_⟩
    unfold encodeTMessageChecked encodeTMessage pushTMessage
    dsimp only
    rw [if_pos (not_le.mp hc)]
    rfl

variable {tag : Tag}

theorem receive_walk {c : Client} {key : RequestKey} (qids : List Qid)
    (ht : tag ≠ NOTAG) (hl : c.pending.live[tag]? = some key) :
    (receive (.walk tag qids)).exec c = (.ok (.completion tag (.walk qids)), c.retire tag) := by
  unfold receive completeWith
  dsimp only
  rw [exec_bind, finish_exec ht hl]
  rfl

variable {σ ν : Type}

/-- The client behind a request that took a tag and the next fid. -/
def claimBoth (c : Client) (tag : Tag) : Client :=
  { c.claim tag with nextFid := if c.nextFid + 1 = NOFID then 1 else c.nextFid + 1 }

variable {c : Connection σ}

theorem walk_build (fid : Fid) (names : List Bytes)
    (ha : allocTag.exec c.protocol = (.ok tag, c.protocol.claim tag)) :
    (Connection.build (Client.walk fid names)).exec c =
      (.ok ⟨tag, some c.protocol.nextFid, .walk tag fid c.protocol.nextFid names⟩,
        { c with protocol := claimBoth c.protocol tag }) := by
  have hw : (Client.walk fid names).exec c.protocol =
      (.ok ⟨tag, some c.protocol.nextFid, .walk tag fid c.protocol.nextFid names⟩,
        claimBoth c.protocol tag) := by
    unfold Client.walk
    rw [exec_bind, ha]
    rfl
  unfold Connection.build
  show (_, _) = _
  rw [hw]
  rfl

/-- A walk that is sent is answered. -/
theorem callOp_walk (respond : TMessage → σ → RMessage × σ)
    {fid newfid : Fid} {key : RequestKey} {frame : Bytes} {qids : List Qid}
    {server : σ} (ht : tag ≠ NOTAG) (hl : c.protocol.pending.live[tag]? = some key)
    (hf : encodeTMessageChecked (.walk tag fid newfid names) c.protocol.msize = .ok frame)
    (hr : respond (.walk tag fid newfid names) c.server = (.walk tag qids, server)) :
    (Connection.callOp respond ⟨tag, some newfid, .walk tag fid newfid names⟩).exec c =
      (.ok (.walk qids), ⟨c.protocol.retire tag, server⟩) := by
  have ha : (Connection.exchange respond (.walk tag fid newfid names)).exec c =
      (.ok (.walk tag qids), { c with server := server }) := by
    unfold Connection.exchange
    show (_, _) = _
    rw [hr]
  have htk : (Connection.take (.walk tag qids)).exec { c with server := server } =
      (.ok (.completion tag (.walk qids)), ⟨c.protocol.retire tag, server⟩) := by
    unfold Connection.take
    show (_, _) = _
    rw [receive_walk qids ht hl]
  unfold Connection.callOp
  dsimp only
  rw [exec_bind_ok (exec_refuseIf_pass (decide_eq_false ht) _ _), exec_bind]
  show Checked.exec (match encodeTMessageChecked _ _ with | .error _ => _ | .ok _ => _) c = _
  rw [hf]
  dsimp only
  rw [exec_bind_ok ha, exec_bind_ok htk]
  dsimp only
  rw [exec_bind_ok (exec_refuseIf_pass (decide_eq_false (not_not.mpr rfl)) _ _)]
  rfl

/-- A request that is not sent gives its tag back. -/
theorem callOp_refused (respond : TMessage → σ → RMessage × σ) (op : Op) {error : Error}
    (ht : op.tag ≠ NOTAG)
    (hf : encodeTMessageChecked op.message c.protocol.msize = .error error) :
    (Connection.callOp respond op).exec c =
      (.error ⟨utf8 "encode 9P frame: " ++ error.message⟩,
        { c with protocol := c.protocol.abandon op.tag }) := by
  unfold Connection.callOp
  rw [exec_bind_ok (exec_refuseIf_pass (decide_eq_false ht) _ _), exec_bind]
  show Checked.exec (match encodeTMessageChecked _ _ with | .error _ => _ | .ok _ => _) c = _
  rw [hf]
  rfl

/-- A walk that does not fit one message fails, with the text of its encoding. -/
theorem walk_refused (respond : TMessage → σ → RMessage × σ) (debug : Bytes → Bytes) (fid : Fid)
    {free : Tag} (hi : c.protocol.Free free) (hah : c.protocol.ahead free < 65535)
    (hn : ∀ name ∈ names, name.length ≤ 65535)
    (h : ¬ (names.length ≤ MAXWELEM ∧ walkSize names ≤ c.protocol.msize.toNat)) :
    ∃ message ∈ ["name too long", "frame exceeds msize"], ∃ after,
      (Connection.walk respond debug fid names).exec c =
        (.error ⟨utf8 "encode 9P frame: " ++ utf8 message⟩, after) := by
  obtain ⟨tag, ⟨ht, _⟩, ha⟩ := allocTag_free hi hah
  obtain ⟨message, hm, he⟩ := encode_walk_refused tag fid c.protocol.nextFid hn h
  have hr := callOp_refused (c := { c with protocol := claimBoth c.protocol tag }) respond
    ⟨tag, some c.protocol.nextFid, .walk tag fid c.protocol.nextFid names⟩ ht he
  have hsh : (Connection.walkShort respond fid names).exec c =
      (.error ⟨utf8 "encode 9P frame: " ++ utf8 message⟩,
        { c with protocol := (claimBoth c.protocol tag).abandon tag }) := by
    unfold Connection.walkShort
    rw [exec_bind_ok (walk_build fid names ha), exec_bind_ok (a := c.protocol.nextFid) (by rfl),
      exec_bind_error hr]
    rfl
  exact ⟨message, hm, _, exec_bind_error hsh _⟩

/-- A walk that fits one message reaches the file that its names lead to one at a time. -/
theorem TreeServer.walk_exec (S : TreeServer σ ν) (debug : Bytes → Bytes) {fid : Fid}
    {start node : ν} {free : Tag} (hi : c.protocol.Free free)
    (hah : c.protocol.ahead free < 65535) (hfd : S.fids c.server fid = some start)
    (hnw : S.fids c.server c.protocol.nextFid = none) (hc : names.length ≤ MAXWELEM)
    (hn : ∀ name ∈ names, name.length ≤ 65535) (hs : walkSize names ≤ c.protocol.msize.toNat)
    (hfn : names.foldlM S.child start = some node) :
    ∃ after, (Connection.walk S.respond debug fid names).exec c = (.ok c.protocol.nextFid, after) ∧
      S.fids after.server c.protocol.nextFid = some node := by
  obtain ⟨tag, ⟨ht, _⟩, ha⟩ := allocTag_free hi hah
  obtain ⟨qids, server, hr, hq, hrc⟩ : ∃ qids after,
      S.respond (.walk tag fid c.protocol.nextFid names) c.server = (.walk tag qids, after) ∧
        qids.length = names.length ∧ S.fids after c.protocol.nextFid = some node :=
    S.walk_found hc hfd hnw hfn
  obtain ⟨frame, hf⟩ := encode_walk tag fid c.protocol.nextFid hc hn hs
  have hl : (claimBoth c.protocol tag).pending.live[tag]? =
      some ⟨tag, c.protocol.pending.nextGeneration⟩ := by
    exact Std.ExtTreeMap.getElem?_insert_self
  have hsh : (Connection.walkShort S.respond fid names).exec c =
      (.ok (.ok c.protocol.nextFid), ⟨(claimBoth c.protocol tag).retire tag, server⟩) := by
    unfold Connection.walkShort
    rw [exec_bind_ok (walk_build fid names ha),
      exec_bind_ok (a := c.protocol.nextFid) (by rfl),
      exec_bind_ok (callOp_walk S.respond
        (c := { c with protocol := claimBoth c.protocol tag }) ht hl hf hr)]
    dsimp only
    rw [if_pos hq]
    rfl
  refine ⟨⟨(claimBoth c.protocol tag).retire tag, server⟩, ?_, hrc⟩
  unfold Connection.walk
  rw [exec_bind_ok hsh]
  rfl

end R9P.Multiplex
