import R9P.Base.Runs
import R9P.Base.TreeMap
import R9P.Front.Model

/-!
# Writes that are relayed

Library `Front`. The writes of a fid on a write relay are gathered in a buffer. The clunk hands the
buffer to the owner as one request and waits for the owner to accept it. These are the runs of one
such fid, from its first write to the end of its clunk, with the owners and the requests of other
fids beside it.
-/

namespace R9P.Front
open Base Wire Server

/-- `model.rs:192`. -/
inductive WriteRelayReply where
  | accepted (count : UInt32)
  | rejected (message : Bytes)
  deriving DecidableEq

/-- `tree.rs:92`, with the offset of the context only. -/
structure WriteRelayBuffer where
  requestPrefix : Bytes
  bytes : Bytes
  offset : UInt64
  deriving DecidableEq

/-- The branch of `tree.rs:431`, behind the check of the length in `tree.rs:385`: the buffer after
a write that is acknowledged. -/
def WriteRelayBuffer.write (requestPrefix : Bytes) (offset : UInt64) (data : Bytes)
    (buffer : Option WriteRelayBuffer) : Result WriteRelayBuffer :=
  if 2 ^ 32 ≤ data.length then .error (.fromStatic EPERM)
  else match buffer with
  | none => .ok ⟨requestPrefix, data, offset⟩
  | some buffer =>
    if buffer.requestPrefix ≠ requestPrefix then
      .error (.fromStatic "write relay path changed while buffering")
    else if 2 ^ 64 ≤ buffer.offset.toNat + buffer.bytes.length then .error (.fromStatic EPERM)
    else if offset.toNat ≠ buffer.offset.toNat + buffer.bytes.length then
      .error (.fromStatic "write relay offset is not sequential")
    else .ok { buffer with bytes := buffer.bytes ++ data }

/-- A request that waits for an owner, with the buffer it was made of. -/
structure RelayRequest where
  requestId : Nat
  buffer : WriteRelayBuffer
  deriving DecidableEq

/-- Where the fid is. -/
inductive WritePhase where
  | opened (buffer : Option WriteRelayBuffer)
  | waiting (requestId dataLen : Nat)
  | clunked (requestId : Option Nat) (outcome : Result Unit)
  deriving DecidableEq

/-- The request of the fid. -/
def WritePhase.request : WritePhase → Option Nat
  | opened _ => none
  | waiting requestId _ => some requestId
  | clunked requestId _ => requestId

/-- The tables of `model.rs:260` for requests and for replies to writes, the fid with the writes
that were acknowledged, and what owners have received. -/
structure Writing where
  nextRequestId : Nat
  pending : List RelayRequest
  writeRelayPrefixes : Std.ExtTreeSet Bytes
  writeRelayResponses : Std.ExtTreeMap Nat (Option WriteRelayReply)
  phase : WritePhase
  acknowledged : List (UInt64 × Bytes)
  received : List RelayRequest

/-- The fid, the owners, and other fids, whose requests may be of any kind: that each gets an entry
for a reply is of no account. -/
inductive WriteAction where
  | write (requestPrefix : Bytes) (offset : UInt64) (data : Bytes)
  | clunk
  | turn (expired : Bool)
  | take (index : Nat)
  | complete (requestPrefix : Bytes) (requestId : Nat) (reply : WriteRelayReply)
  | register (requestPrefix : Bytes)
  | other (buffer : WriteRelayBuffer)
  | withdraw (requestId : Nat)

namespace Writing

/-- A new request, `tree.rs:924`. -/
def push (buffer : WriteRelayBuffer) (self : Writing) : Writing :=
  { self with
    nextRequestId := min (self.nextRequestId + 1) (2 ^ 64 - 1)
    pending := self.pending ++ [⟨self.nextRequestId, buffer⟩]
    writeRelayResponses := self.writeRelayResponses.insert self.nextRequestId none }

/-- A request whose client waits no longer, `front.rs:981`. -/
def withdraw (requestId : Nat) (self : Writing) : Writing :=
  { self with
    pending := self.pending.filter (·.requestId ≠ requestId)
    writeRelayResponses := self.writeRelayResponses.erase requestId }

/-- `front.rs:777`. -/
def completeWriteResult (requestPrefix : Bytes) (requestId : Nat) (reply : WriteRelayReply)
    (self : Writing) : Result Writing := do
  let trimmed ← normaliseRequestPrefix requestPrefix
  if self.writeRelayPrefixes.contains trimmed ∧ self.writeRelayResponses.contains requestId then
    .ok { self with
      writeRelayResponses := self.writeRelayResponses.insert requestId (some reply) }
  else .error (.fromStatic ENOENT)

/-- The loop of `front.rs:958`, once around and with no cancel flag, as `tree.rs:939` calls it. -/
def waitWriteRelay (requestId dataLen : Nat) (expired : Bool) (self : Writing) : Writing :=
  let clunked (outcome : Result Unit) : Writing :=
    { self with
      writeRelayResponses := self.writeRelayResponses.erase requestId
      phase := .clunked (some requestId) outcome }
  match self.writeRelayResponses[requestId]? with
  | none => clunked (.error (.fromStatic ENOENT))
  | some (some (.accepted count)) =>
    clunked (if dataLen < count.toNat then .error (.fromStatic EPERM) else .ok ())
  | some (some (.rejected message)) => clunked (.error ⟨message⟩)
  | some none =>
    if expired then (clunked (.error (.fromStatic "write relay unavailable"))).withdraw requestId
    else self

/-- What an action does; `none` if it cannot happen. A request is withdrawn by its own client. -/
def next (self : Writing) : WriteAction → Option Writing
  | .write requestPrefix offset data =>
    match self.phase with
    | .opened buffer => match WriteRelayBuffer.write requestPrefix offset data buffer with
      | .ok buffer => some
        { self with
          phase := .opened (some buffer)
          acknowledged := self.acknowledged ++ [(offset, data)] }
      | .error _ => some self
    | _ => none
  | .clunk => match self.phase with
    | .opened none => some { self with phase := .clunked none (.ok ()) }
    | .opened (some buffer) => some
      { self.push buffer with phase := .waiting self.nextRequestId buffer.bytes.length }
    | _ => none
  | .turn expired => match self.phase with
    | .waiting requestId dataLen => some (self.waitWriteRelay requestId dataLen expired)
    | _ => none
  | .take index => (self.pending[index]?).map fun request =>
    { self with
      pending := self.pending.eraseIdx index
      received := request :: self.received }
  | .complete requestPrefix requestId reply =>
    match self.completeWriteResult requestPrefix requestId reply with
    | .ok self | .error _ => some self
  | .register requestPrefix =>
    some { self with writeRelayPrefixes := self.writeRelayPrefixes.insert requestPrefix }
  | .other buffer => some (self.push buffer)
  | .withdraw requestId =>
    if self.phase.request = some requestId then none else some (self.withdraw requestId)

/-- The requests that an owner has received or can receive. -/
def requests (w : Writing) : List RelayRequest := w.received ++ w.pending

/-- Those of the fid. -/
def own (w : Writing) : List RelayRequest :=
  w.requests.filter (w.phase.request = some ·.requestId)

/-- Whoever accepts the fid's write accepts all of it, its time is not up before an owner has
received it, and the numbers of requests last. -/
def whole (w : Writing) : WriteAction → Bool
  | .complete _ requestId (.accepted count) => match w.phase with
    | .waiting id dataLen => id ≠ requestId || count.toNat = dataLen
    | _ => true
  | .turn true => w.pending.all (w.phase.request ≠ some ·.requestId)
  | .clunk | .other _ => w.nextRequestId + 1 < 2 ^ 64
  | _ => true

end Writing

/-- The runs of a fid on a write relay. -/
def relaying : System Writing WriteAction where
  initial w := w.phase = .opened none ∧ w.acknowledged = [] ∧ w.received = [] ∧ w.pending = []
  step w action w' := w.next action = some w'

/-- What a list of writes comes to: the offset of the first, and the bytes of all. -/
def gathered (writes : List (UInt64 × Bytes)) : Option (UInt64 × Bytes) :=
  writes.head?.map fun first => (first.1, writes.flatMap Prod.snd)

/-- An owner has accepted this many bytes for a request. -/
def Accepted (history : List WriteAction) (requestId length : Nat) : Prop :=
  ∃ requestPrefix count, .complete requestPrefix requestId (.accepted count) ∈ history ∧
    count.toNat = length

theorem Accepted.later {history : List WriteAction} {action : WriteAction} {id length : Nat}
    (h : Accepted history id length) : Accepted (action :: history) id length := by
  obtain ⟨requestPrefix, count, hmem, hcount⟩ := h
  exact ⟨requestPrefix, count, List.mem_cons_of_mem _ hmem, hcount⟩

namespace Writing

variable {history : List WriteAction} {w w' : Writing} {action : WriteAction} {id length : Nat}

/-- The numbers of requests are all different, and below the next one. -/
structure Numbered (w : Writing) : Prop where
  distinct : (w.requests.map (·.requestId)).Nodup
  below : ∀ request ∈ w.requests, request.requestId < w.nextRequestId

/-- The request of this number has what the acknowledged writes come to. -/
def Issues (w : Writing) (id length : Nat) : Prop :=
  ∃ request ∈ w.requests, request.requestId = id ∧ request.buffer.bytes.length = length ∧
    gathered w.acknowledged = some (request.buffer.offset, request.buffer.bytes)

/-- What has become of the acknowledged writes, by where the fid is. -/
def Delivers (history : List WriteAction) (w : Writing) : Prop :=
  match w.phase with
  | .opened buffer => buffer.map (fun b => (b.offset, b.bytes)) = gathered w.acknowledged
  | .waiting id dataLen => w.Issues id dataLen ∧ ∀ count,
    w.writeRelayResponses[id]? = some (some (.accepted count)) → Accepted history id dataLen
  | .clunked none _ => w.acknowledged = []
  | .clunked (some id) outcome => ∃ length, w.Issues id length ∧
    (outcome = .ok () → Accepted history id length)

theorem requests_push (buffer : WriteRelayBuffer) :
    (w.push buffer).requests = w.requests ++ [⟨w.nextRequestId, buffer⟩] :=
  (List.append_assoc ..).symm

theorem Numbered.push (h : w.Numbered) (hfits : w.nextRequestId + 1 < 2 ^ 64)
    (buffer : WriteRelayBuffer) : (w.push buffer).Numbered := by
  have hnext : (w.push buffer).nextRequestId = w.nextRequestId + 1 := Nat.min_eq_left (by omega)
  constructor
  · rw [requests_push, List.map_append]
    refine h.distinct.append (List.nodup_singleton _) fun id hid hnew => ?_
    obtain ⟨request, hmem, rfl⟩ := List.mem_map.mp hid
    have := h.below request hmem
    have : request.requestId = w.nextRequestId := List.mem_singleton.mp hnew
    omega
  · intro request hmem
    rw [requests_push] at hmem
    rw [hnext]
    rcases List.mem_append.mp hmem with hmem | hmem
    · exact Nat.lt_succ_of_lt (h.below request hmem)
    · rw [List.mem_singleton.mp hmem]
      exact Nat.lt_succ_self _

theorem Numbered.withdraw (h : w.Numbered) (requestId : Nat) :
    (w.withdraw requestId).Numbered := by
  have hsub : (w.withdraw requestId).requests.Sublist w.requests :=
    List.filter_sublist.append_left _
  exact ⟨h.distinct.sublist (hsub.map _), fun request hmem => h.below request (hsub.subset hmem)⟩

theorem Issues.lt (hissues : w.Issues id length) (h : w.Numbered) : id < w.nextRequestId := by
  obtain ⟨request, hmem, rfl, _⟩ := hissues
  exact h.below request hmem

theorem Issues.mono (h : w.Issues id length) (hacknowledged : w'.acknowledged = w.acknowledged)
    (hkept : ∀ request ∈ w.requests, request.requestId = id → request ∈ w'.requests) :
    w'.Issues id length := by
  obtain ⟨request, hmem, hid, hlength, hgathered⟩ := h
  rw [← hacknowledged] at hgathered
  exact ⟨request, hkept request hmem hid, hid, hlength, hgathered⟩

/-- A step that is not one of the fid leaves its request, and an acceptance of it is one of all
its bytes. -/
theorem Delivers.mono (h : Delivers history w) (hphase : w'.phase = w.phase)
    (hacknowledged : w'.acknowledged = w.acknowledged)
    (hkept : ∀ request ∈ w.requests, w.phase.request = some request.requestId →
      request ∈ w'.requests)
    (haccepted : ∀ id dataLen count, w.phase = .waiting id dataLen → id < w.nextRequestId →
      w'.writeRelayResponses[id]? = some (some (.accepted count)) →
      w.writeRelayResponses[id]? = some (some (.accepted count)) ∨
        Accepted (action :: history) id dataLen)
    (hnumbered : w.Numbered) : Delivers (action :: history) w' := by
  unfold Delivers at h ⊢
  rw [hphase]
  cases hp : w.phase with
  | opened buffer =>
    rw [hp] at h
    exact h.trans (congrArg _ hacknowledged.symm)
  | waiting id dataLen =>
    rw [hp] at h hkept
    obtain ⟨hissues, hreply⟩ := h
    refine ⟨hissues.mono hacknowledged fun request hmem hid => ?_, fun count hcount => ?_⟩
    · exact hkept request hmem (congrArg some hid.symm)
    · rcases haccepted id dataLen count hp (hissues.lt hnumbered) hcount with hold | hnew
      · exact (hreply count hold).later
      · exact hnew
  | clunked requestId outcome =>
    rw [hp] at h hkept
    cases requestId with
    | none => exact hacknowledged.trans h
    | some id =>
      obtain ⟨length, hissues, hreply⟩ := h
      refine ⟨length, hissues.mono hacknowledged fun request hmem hid => ?_, fun hok => ?_⟩
      · exact hkept request hmem (congrArg some hid.symm)
      · exact (hreply hok).later

theorem gathered_append {writes : List (UInt64 × Bytes)} {buffer : Option WriteRelayBuffer}
    {requestPrefix : Bytes} {offset : UInt64} {data : Bytes} {after : WriteRelayBuffer}
    (h : buffer.map (fun b => (b.offset, b.bytes)) = gathered writes)
    (hwrite : WriteRelayBuffer.write requestPrefix offset data buffer = .ok after) :
    some (after.offset, after.bytes) = gathered (writes ++ [(offset, data)]) := by
  unfold WriteRelayBuffer.write at hwrite
  cases writes with
  | nil =>
    cases buffer with
    | none =>
      split at hwrite
      · cases hwrite
      · cases hwrite
        simp [gathered]
    | some buffer => cases h
  | cons first writes =>
    cases buffer with
    | none => cases h
    | some buffer =>
      obtain ⟨ho, hb⟩ := Prod.mk.inj (Option.some.inj h)
      dsimp only at hwrite
      split_ifs at hwrite
      cases hwrite
      simp [gathered, ho, hb]

/-- The clunk hands over the buffer. -/
theorem Delivers.clunk (hnumbered : w.Numbered) (h : Delivers history w)
    (hfits : w.nextRequestId + 1 < 2 ^ 64) (hnext : w.next .clunk = some w') :
    w'.Numbered ∧ Delivers (.clunk :: history) w' := by
  dsimp only [Writing.next] at hnext
  unfold Delivers at h
  split at hnext
  · next hopened =>
    rw [hopened] at h
    cases hnext
    refine ⟨⟨hnumbered.distinct, hnumbered.below⟩, ?_⟩
    exact List.head?_eq_none_iff.mp (Option.map_eq_none_iff.mp h.symm)
  · next buffer hopened =>
    rw [hopened] at h
    cases hnext
    obtain ⟨hdistinct, hbelow⟩ := hnumbered.push hfits buffer
    refine ⟨⟨hdistinct, hbelow⟩, ⟨⟨w.nextRequestId, buffer⟩, ?_, rfl, rfl, h.symm⟩, ?_⟩
    · show _ ∈ (w.push buffer).requests
      rw [requests_push]
      exact List.mem_append_right _ (List.mem_singleton_self _)
    · intro count hcount
      dsimp only [Writing.push] at hcount
      rw [get_insert, if_pos rfl] at hcount
      cases hcount
  · cases hnext

theorem Delivers.later (hnumbered : w.Numbered) (h : Delivers history w) :
    Delivers (action :: history) w :=
  h.mono rfl rfl (fun _ hmem _ => hmem) (fun _ _ _ _ _ => .inl) hnumbered

/-- The clunk ends with what it finds. -/
theorem Delivers.turn (hnumbered : w.Numbered) (h : Delivers history w) {expired : Bool}
    (hwhole : w.whole (.turn expired)) (hnext : w.next (.turn expired) = some w') :
    w'.Numbered ∧ Delivers (.turn expired :: history) w' := by
  dsimp only [Writing.next] at hnext
  have hd := h
  unfold Delivers at hd
  split at hnext
  · next id dataLen hwaiting =>
    rw [hwaiting] at hd
    obtain ⟨hissues, hreply⟩ := hd
    have hnum : ∀ responses phase, Numbered
        { w with writeRelayResponses := responses, phase := phase } :=
      fun _ _ => ⟨hnumbered.distinct, hnumbered.below⟩
    unfold waitWriteRelay at hnext
    dsimp only at hnext
    split at hnext
    · cases hnext
      exact ⟨hnum _ _, dataLen, hissues, fun hok => (by cases hok)⟩
    · next count hcount =>
      cases hnext
      exact ⟨hnum _ _, dataLen, hissues, fun _ => (hreply count hcount).later⟩
    · cases hnext
      exact ⟨hnum _ _, dataLen, hissues, fun hok => (by cases hok)⟩
    · split at hnext
      · next hexpired =>
        -- An owner has the request, so that it is not taken back.
        cases hnext
        subst hexpired
        refine ⟨(hnum _ _).withdraw id, dataLen, hissues.mono rfl fun request hmem hid => ?_,
          fun hok => (by cases hok)⟩
        rcases List.mem_append.mp hmem with hmem | hmem
        · exact List.mem_append_left _ hmem
        · have hgone := List.all_eq_true.mp hwhole request hmem
          rw [hwaiting] at hgone
          exact absurd (congrArg some hid.symm) (of_decide_eq_true hgone)
      · cases hnext
        exact ⟨hnumbered, h.later hnumbered⟩
  · cases hnext

theorem Delivers.next (hnumbered : w.Numbered) (h : Delivers history w) (hwhole : w.whole action)
    (hnext : w.next action = some w') : w'.Numbered ∧ Delivers (action :: history) w' := by
  cases action with
  | write requestPrefix offset data =>
    dsimp only [Writing.next] at hnext
    split at hnext
    · next buffer hopened =>
      split at hnext
      · next after hwrite =>
        cases hnext
        unfold Delivers at h ⊢
        rw [hopened] at h
        exact ⟨⟨hnumbered.distinct, hnumbered.below⟩, gathered_append h hwrite⟩
      · cases hnext
        exact ⟨hnumbered, h.later hnumbered⟩
    · cases hnext
  | clunk => exact h.clunk hnumbered (of_decide_eq_true hwhole) hnext
  | turn expired => exact h.turn hnumbered hwhole hnext
  | take index =>
    obtain ⟨request, hrequest, rfl⟩ := Option.map_eq_some_iff.mp hnext
    obtain ⟨hindex, rfl⟩ := List.getElem?_eq_some_iff.mp hrequest
    have hperm := List.perm_middle.symm.trans
      ((List.getElem_cons_eraseIdx_perm hindex).append_left w.received)
    refine ⟨⟨(hperm.map _).nodup_iff.mpr hnumbered.distinct, fun request hmem => ?_⟩, ?_⟩
    · exact hnumbered.below request (hperm.subset hmem)
    · exact h.mono rfl rfl (fun _ hmem _ => hperm.symm.subset hmem) (fun _ _ _ _ _ => .inl)
        hnumbered
  | complete requestPrefix requestId reply =>
    dsimp only [Writing.next] at hnext
    split at hnext
    · next hresult =>
      cases hnext
      obtain ⟨trimmed, -, hresult⟩ := bind_ok.mp hresult
      split at hresult
      · cases hresult
        refine ⟨⟨hnumbered.distinct, hnumbered.below⟩,
          h.mono rfl rfl (fun _ hmem _ => hmem) (fun id dataLen count hp _ hcount => ?_) hnumbered⟩
        dsimp only at hcount
        rw [get_insert] at hcount
        split at hcount
        · next heq =>
          cases hcount
          unfold whole at hwhole
          rw [hp] at hwhole
          have hall : count.toNat = dataLen := by simpa [heq] using hwhole
          exact .inr ⟨requestPrefix, count, heq ▸ List.mem_cons_self, hall⟩
        · exact .inl hcount
      · cases hresult
    · cases hnext
      exact ⟨hnumbered, h.later hnumbered⟩
  | register requestPrefix =>
    cases hnext
    exact ⟨⟨hnumbered.distinct, hnumbered.below⟩,
      h.mono rfl rfl (fun _ hmem _ => hmem) (fun _ _ _ _ _ => .inl) hnumbered⟩
  | other buffer =>
    cases hnext
    refine ⟨hnumbered.push (of_decide_eq_true hwhole) buffer, h.mono rfl rfl ?_ ?_ hnumbered⟩
    · intro request hmem _
      rw [requests_push]
      exact List.mem_append_left _ hmem
    · intro id dataLen count _ hlt hcount
      dsimp only [Writing.push] at hcount
      rw [get_insert, if_neg (Nat.ne_of_gt hlt)] at hcount
      exact .inl hcount
  | withdraw requestId =>
    dsimp only [Writing.next] at hnext
    split at hnext
    · cases hnext
    · next hother =>
      cases hnext
      refine ⟨hnumbered.withdraw requestId, h.mono rfl rfl ?_ ?_ hnumbered⟩
      · intro request hmem hown
        rcases List.mem_append.mp hmem with hmem | hmem
        · exact List.mem_append_left _ hmem
        · refine List.mem_append_right _ (List.mem_filter.mpr ⟨hmem, decide_eq_true fun heq => ?_⟩)
          exact hother (heq ▸ hown)
      · intro id dataLen count _ _ hcount
        dsimp only [Writing.withdraw] at hcount
        rw [get_erase] at hcount
        split at hcount
        · cases hcount
        · exact .inl hcount

theorem delivers_of_run (run : (relaying.restrict (·.whole ·)).Run history w) :
    w.Numbered ∧ Delivers history w := by
  refine run.invariant (I := fun history w => w.Numbered ∧ Delivers history w) ?_
    fun _ _ _ _ _ h hstep => h.2.next h.1 hstep.1 hstep.2
  rintro w ⟨hphase, hnone, hreceived, hpending⟩
  have hrequests : w.requests = [] := by rw [requests, hreceived, hpending, List.append_nil]
  refine ⟨⟨?_, ?_⟩, ?_⟩
  · rw [hrequests]
    exact List.nodup_nil
  · rw [hrequests]
    exact fun _ hmem => absurd hmem List.not_mem_nil
  · unfold Delivers
    rw [hphase, hnone]
    rfl

/-- The request of the fid is its only one. -/
theorem Issues.own (hissues : w.Issues id length) (h : w.Numbered)
    (hrequest : w.phase.request = some id) : ∃ request, w.own = [request] ∧
      request.requestId = id ∧ request.buffer.bytes.length = length ∧
      gathered w.acknowledged = some (request.buffer.offset, request.buffer.bytes) := by
  obtain ⟨request, hmem, rfl, hlength, hgathered⟩ := hissues
  refine ⟨request, ?_, rfl, hlength, hgathered⟩
  have hcount := List.nodup_iff_count_le_one.mp h.distinct request.requestId
  rw [List.count, List.countP_map, List.countP_eq_length_filter] at hcount
  have hle : w.own.length ≤ 1 := by
    unfold Writing.own
    convert hcount using 3
    funext other
    rw [hrequest]
    exact decide_eq_decide.mpr ⟨fun h => (Option.some.inj h).symm, fun h => congrArg some h.symm⟩
  have hin : request ∈ w.own := List.mem_filter.mpr ⟨hmem, decide_eq_true hrequest⟩
  obtain ⟨only, honly⟩ := List.length_eq_one_iff.mp
    (Nat.le_antisymm hle (List.length_pos_of_mem hin))
  rw [honly] at hin ⊢
  rw [List.mem_singleton.mp hin]

end Writing

/-- In every run in which the fid's write is not accepted in part and its time is not up before an
owner has received it, exactly one request of the fid is issued with its clunk, with what the
acknowledged writes come to, and none if nothing was written. The clunk succeeds only if nothing was
written, or all of the bytes of the request were accepted. -/
theorem write_relay_delivers {history : List WriteAction} {w : Writing}
    (run : (relaying.restrict (·.whole ·)).Run history w) :
    (∀ buffer, w.phase = .opened buffer → w.own = []) ∧
    ((∀ buffer, w.phase ≠ .opened buffer) →
      w.own.map (fun request => (request.buffer.offset, request.buffer.bytes)) =
        (gathered w.acknowledged).toList) ∧
    ∀ id, w.phase = .clunked id (.ok ()) → w.acknowledged = [] ∨
      ∃ request ∈ w.own, Accepted history request.requestId request.buffer.bytes.length := by
  obtain ⟨hnumbered, h⟩ := Writing.delivers_of_run run
  unfold Writing.Delivers at h
  have hnone : w.phase.request = none → w.own = [] := fun hrequest => by
    rw [Writing.own, hrequest]
    exact List.filter_eq_nil_iff.mpr fun _ _ => by simp
  cases hphase : w.phase with
  | opened buffer =>
    refine ⟨fun _ _ => hnone (by rw [hphase]; rfl), fun hclunked => ?_, fun id hended => ?_⟩
    · exact absurd rfl (hclunked buffer)
    · cases hended
  | waiting id dataLen =>
    rw [hphase] at h
    obtain ⟨request, hown, _, _, hgathered⟩ := h.1.own hnumbered (by rw [hphase]; rfl)
    refine ⟨fun _ hopened => (by cases hopened), fun _ => ?_, fun _ hended => (by cases hended)⟩
    rw [hown, hgathered]
    rfl
  | clunked requestId outcome =>
    rw [hphase] at h
    refine ⟨fun _ hopened => (by cases hopened), ?_⟩
    cases requestId with
    | none =>
      rw [hnone (by rw [hphase]; rfl), h]
      exact ⟨fun _ => rfl, fun _ _ => .inl rfl⟩
    | some id =>
      obtain ⟨length, hissues, haccepted⟩ := h
      obtain ⟨request, hown, rfl, rfl, hgathered⟩ := hissues.own hnumbered (by rw [hphase]; rfl)
      rw [hown, hgathered]
      refine ⟨fun _ => rfl, fun _ hended => .inr ⟨request, List.mem_singleton_self _, ?_⟩⟩
      cases hended
      exact haccepted rfl

/-- Before the first write. -/
def unwritten : Writing := ⟨0, [], .insert ∅ (utf8 "p"), ∅, .opened none, [], []⟩

/-- Two writes, the clunk, and an owner that accepts some bytes. -/
def relayed (count : UInt32) : List WriteAction :=
  [.write (utf8 "p") 7 (utf8 "ab"), .write (utf8 "p") 9 (utf8 "c"), .clunk, .take 0,
    .complete (utf8 "p") 0 (.accepted count), .turn false]

theorem write_relay_delivers_relayed : ∃ w,
    (relaying.restrict (·.whole ·)).Run (relayed 3).reverse w ∧ ∃ request ∈ w.own,
      Accepted (relayed 3).reverse request.requestId request.buffer.bytes.length := by
  have hview : ((relayed 3).foldlM (fun (w : Writing) action =>
      if w.whole action then w.next action else none) unwritten).map
        (fun w => (w.acknowledged, w.phase)) =
        some ([(7, utf8 "ab"), (9, utf8 "c")], .clunked (some 0) (.ok ())) := by decide +kernel
  obtain ⟨w, hrun, hview⟩ := System.Run.of_view (M := relaying.restrict (·.whole ·))
    ⟨rfl, rfl, rfl, rfl⟩ (fun _ _ _ _ h => Option.ite_none_right_eq_some.mp h) hview
  obtain ⟨hwritten, hphase⟩ := Prod.mk.inj hview
  refine ⟨w, hrun, ((write_relay_delivers hrun).2.2 _ hphase).resolve_left ?_⟩
  rw [hwritten]
  nofun

/-- The owner accepts one byte of three, and the clunk succeeds. -/
theorem write_relay_drops : ∃ w, relaying.Run (relayed 1).reverse w ∧
    w.own = [⟨0, utf8 "p", utf8 "abc", 7⟩] ∧ w.phase = .clunked (some 0) (.ok ()) ∧
    ¬ Accepted (relayed 1).reverse 0 3 := by
  have hview : ((relayed 1).foldlM Writing.next unwritten).map (fun w => (w.own, w.phase)) =
      some ([⟨0, utf8 "p", utf8 "abc", 7⟩], .clunked (some 0) (.ok ())) := by decide +kernel
  obtain ⟨w, hrun, hview⟩ := System.Run.of_view (M := relaying) ⟨rfl, rfl, rfl, rfl⟩
    (fun _ _ _ _ h => h) hview
  obtain ⟨hown, hphase⟩ := Prod.mk.inj hview
  exact ⟨w, hrun, hown, hphase, by simp [Accepted, relayed]⟩

end R9P.Front
