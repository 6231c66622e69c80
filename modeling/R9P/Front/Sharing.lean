import R9P.Base.Runs
import R9P.Front.Model

/-!
# Reads that share a response

Library `Front`. The reads of one fid on an rpc file, or on a snapshot relay, wait for one response
of the owner. A read that is cancelled, or whose time is up, strikes that response out of the
table, and the other reads wait for the same entry. These are the runs of such reads with their
owner, and with the writes to an rpc file that begin the next request; the fid is not clunked in
them. The queue from which owners take requests is left out: an owner may answer at any time.
-/

namespace R9P.Front
open Std Base Base.Checked Wire Server

/-- `model.rs:197`, without the replies to directory requests. -/
inductive RequestReply where
  | accepted (bytes : Bytes)
  | rejected (message : Bytes)
  deriving DecidableEq, Repr

/-- What a reply says to a read at an offset, `front.rs:858`. -/
def RequestReply.read (offset count : Nat) : RequestReply → Result Bytes
  | accepted bytes => .ok ((bytes.drop (min offset bytes.length)).take count)
  | rejected message => .error ⟨message⟩

/-- The tables of `model.rs:260` that hold the responses of owners. -/
structure Responses where
  nextRequestId : Nat
  rpcResponses : ExtTreeMap Nat (Option RequestReply)
  responsePrefixes : ExtTreeMap Nat Bytes

namespace Responses

/-- A new request and its entries, as in `tree.rs:767` and `tree.rs:843`. -/
def ask (requestPrefix : Bytes) (self : Responses) : Responses where
  nextRequestId := min (self.nextRequestId + 1) (2 ^ 64 - 1)
  rpcResponses := self.rpcResponses.insert self.nextRequestId none
  responsePrefixes := self.responsePrefixes.insert self.nextRequestId requestPrefix

/-- `model.rs:1204`. -/
def removeResponseRequest (requestId : Nat) (self : Responses) : Responses :=
  { self with
    rpcResponses := self.rpcResponses.erase requestId
    responsePrefixes := self.responsePrefixes.erase requestId }

/-- `front.rs:525` for a request that waits, with `accepted`, and `front.rs:602`, with
`rejected`. -/
def complete (requestPrefix : Bytes) (requestId : Nat) (reply : RequestReply) :
    Checked Responses Error Unit := do
  let trimmed ← .ask fun _ => normaliseRequestPrefix requestPrefix
  .ask fun self =>
    if self.responsePrefixes[requestId]? ≠ some trimmed then .error (.fromStatic ENOENT) else .ok ()
  let slot ← .ask fun self => okOr self.rpcResponses[requestId]? ENOENT
  .refuseIf slot.isSome (.fromStatic "request already completed")
  .update fun self =>
    { self with rpcResponses := self.rpcResponses.insert requestId (some reply) }

/-- The loop of `front.rs:851`, once around: no result while the read waits. -/
def readRpc (requestId offset count : Nat) (cancelled expired : Bool) (self : Responses) :
    Option (Result Bytes) × Responses :=
  if cancelled then
    (some (.error (.fromStatic "request flushed")), self.removeResponseRequest requestId)
  else
    match self.rpcResponses[requestId]? with
    | none => (some (.error (.fromStatic ENOENT)), self)
    | some (some reply) => (some (reply.read offset count), self)
    | some none =>
      if expired then
        (some (.error (.fromStatic "rpc request timed out awaiting response")),
          self.removeResponseRequest requestId)
      else (none, self)

/-- Two tables have the same response to a request. -/
def Agree (r r' : Responses) (id : Nat) : Prop :=
  r.rpcResponses[id]? = r'.rpcResponses[id]? ∧
    (r.rpcResponses[id]? ≠ none → r.responsePrefixes[id]? = r'.responsePrefixes[id]?)

end Responses

/-- A read of the fid that waits for its request. -/
structure RelayRead where
  requestId : Nat
  offset : Nat
  count : Nat
  deriving DecidableEq, Repr

/-- `tree.rs:86`, without the context. -/
structure RpcBuffer where
  requestPrefix : Bytes
  bytes : Bytes

/-- The branch of `tree.rs:390` behind its first check: the buffer after a write that is
acknowledged. -/
def RpcBuffer.write (requestPrefix : Bytes) (offset : Nat) (data : Bytes)
    (buffer : Option RpcBuffer) : Result RpcBuffer :=
  if offset = 0 then .ok ⟨requestPrefix, data⟩
  else match buffer with
  | none => .error (.fromStatic "rpc write offset without request start")
  | some buffer =>
    if buffer.requestPrefix ≠ requestPrefix then
      .error (.fromStatic "rpc path changed while buffering")
    else if offset ≠ buffer.bytes.length then
      .error (.fromStatic "rpc write offset is not sequential")
    else .ok { buffer with bytes := buffer.bytes ++ data }

/-- The responses, what was written to the fid and the request that it remembers, and the reads
that wait. -/
structure Reads where
  responses : Responses
  rpcBuffer : Option RpcBuffer
  inflight : Option Nat
  reads : ExtTreeMap Nat RelayRead

/-- Writes and reads, the turns of these, and the owner. -/
inductive ReadAction where
  | write (requestPrefix : Bytes) (offset : Nat) (data : Bytes)
  | read (name : Nat) (requestPrefix : Bytes) (offset count : Nat)
  | turn (name : Nat) (cancelled expired : Bool)
  | complete (requestPrefix : Bytes) (requestId : Nat) (reply : RequestReply)
  | other (requestPrefix : Bytes)

namespace Reads

/-- A read joins the request that the fid remembers: on an rpc file always, `tree.rs:760`, on a
snapshot relay if it still has its entry, `tree.rs:821`. -/
def joins (self : Reads) (snapshot : Bool) : Option Nat :=
  self.inflight.filter fun id => !snapshot || self.responses.rpcResponses.contains id

/-- The fid forgets its request, which gets no answer any more. -/
def giveUp (self : Reads) : Reads :=
  match self.inflight with
  | some previous =>
    { self with
      responses := self.responses.removeResponseRequest previous
      inflight := none }
  | none => self

/-- A write to an rpc file, `tree.rs:390`. -/
def write (requestPrefix : Bytes) (offset : Nat) (data : Bytes) (self : Reads) : Reads :=
  if 2 ^ 32 ≤ data.length then self -- `tree.rs:385`
  else if self.inflight.isSome ∧ offset ≠ 0 then self -- "rpc request already submitted"
  else match RpcBuffer.write requestPrefix offset data self.rpcBuffer with
    | .ok buffer => { self.giveUp with rpcBuffer := some buffer }
    | .error _ => self.giveUp

/-- A read that asks the owner. -/
def asks (name : Nat) (requestPrefix : Bytes) (offset count : Nat) (self : Reads) : Reads where
  responses := self.responses.ask requestPrefix
  rpcBuffer := none
  inflight := some self.responses.nextRequestId
  reads := self.reads.insert name ⟨self.responses.nextRequestId, offset, count⟩

/-- A read begins, `tree.rs:677`. What was written to an rpc file is its request; a snapshot relay
has none, and the read comes with the prefix of the file. -/
def readTargetAt (snapshot : Bool) (name : Nat) (requestPrefix : Bytes) (offset count : Nat)
    (self : Reads) : Reads :=
  match self.joins snapshot with
  | some id => { self with reads := self.reads.insert name ⟨id, offset, count⟩ }
  | none =>
    if snapshot then self.asks name requestPrefix offset count
    else match self.rpcBuffer with
      | some buffer => self.asks name buffer.requestPrefix offset count
      | none => self -- "rpc read before write on this fid"

/-- What an action does; `none` if it cannot happen. -/
def next (snapshot : Bool) (self : Reads) : ReadAction → Option Reads
  | .write requestPrefix offset data =>
    if snapshot then none else some (self.write requestPrefix offset data)
  | .read name requestPrefix offset count =>
    some (self.readTargetAt snapshot name requestPrefix offset count)
  | .turn name cancelled expired => (self.reads[name]?).map fun read =>
    match self.responses.readRpc read.requestId read.offset read.count cancelled expired with
    | (none, responses) => { self with responses := responses }
    | (some _, responses) =>
      { self with responses := responses, reads := self.reads.erase name }
  | .complete requestPrefix requestId reply => some
    { self with responses := ((Responses.complete requestPrefix requestId reply).exec
        self.responses).2 }
  | .other requestPrefix => some { self with responses := self.responses.ask requestPrefix }

/-- The same where a read that ends leaves the responses. -/
def spares (snapshot : Bool) (self : Reads) : ReadAction → Option Reads
  | .turn name cancelled expired => (self.reads[name]?).map fun read =>
    if (self.responses.readRpc read.requestId read.offset read.count cancelled expired).1 = none
      then self else { self with reads := self.reads.erase name }
  | action => self.next snapshot action

end Reads

/-- Before the first write and read. -/
def Reads.Fresh (w : Reads) : Prop :=
  w.rpcBuffer = none ∧ w.inflight = none ∧ w.reads = ∅ ∧ w.responses.rpcResponses = ∅

/-- The runs of the reads of a fid. -/
def reading (snapshot : Bool) : System Reads ReadAction where
  initial := Reads.Fresh
  step w action w' := w.next snapshot action = some w'

/-- What they should be: no read has an effect on another. -/
def undisturbed (snapshot : Bool) : System Reads ReadAction where
  initial := Reads.Fresh
  step w action w' := w.spares snapshot action = some w'

variable {snapshot : Bool} {history : List ReadAction} {w w' v v' : Reads} {action : ReadAction}
  {name id : Nat} {read : RelayRead}

namespace Reads

/-- A read that waits for a request. -/
def Waits (w : Reads) (name id : Nat) : Prop :=
  ∃ read : RelayRead, w.reads[name]? = some read ∧ read.requestId = id

/-- A turn that strikes an entry out: the read is cancelled, or waits and its time is up. -/
def Strikes (w : Reads) (read : RelayRead) (cancelled expired : Bool) : Prop :=
  cancelled = true ∧ w.responses.rpcResponses[read.requestId]? ≠ none ∨
    cancelled = false ∧ expired = true ∧ w.responses.rpcResponses[read.requestId]? = some none

/-- The condition under which a read strikes out nobody's response but its own: no other read waits
for it, and none begins while the fid remembers a request that was struck out. -/
def Apart (w : Reads) : ReadAction → Prop
  | .read _ _ _ _ => ∀ id, w.inflight = some id → w.responses.rpcResponses[id]? ≠ none
  | .turn name cancelled expired => ∀ read : RelayRead, w.reads[name]? = some read →
    w.Strikes read cancelled expired → ∀ other, w.Waits other read.requestId → other = name
  | _ => True

instance (w : Reads) (read : RelayRead) (cancelled expired : Bool) :
    Decidable (w.Strikes read cancelled expired) := inferInstanceAs (Decidable (_ ∨ _))

/-- That a turn strikes out nobody's response can be read off the table. -/
theorem apart_turn_iff {cancelled expired : Bool} : ((w.reads[name]?).all fun read =>
      !decide (w.Strikes read cancelled expired) || w.reads.toList.all fun entry =>
        decide (entry.2.requestId = read.requestId → entry.1 = name)) = true ↔
    w.Apart (.turn name cancelled expired) := by
  refine (Option.all_eq_true _ _).trans
    (forall_congr' fun read => imp_congr_right fun _ => ?_)
  rw [Bool.or_eq_true, Bool.not_eq_true', decide_eq_false_iff_not, ← imp_iff_not_or,
    List.all_eq_true]
  refine imp_congr_right fun _ => ⟨fun h other ⟨found, hf, hid⟩ => ?_, fun h entry hm => ?_⟩
  · exact of_decide_eq_true
      (h (other, found) (ExtTreeMap.mem_toList_iff_getElem?_eq_some.mpr hf)) hid
  · refine decide_eq_true fun hid => h entry.1 ⟨entry.2, ?_, hid⟩
    exact ExtTreeMap.mem_toList_iff_getElem?_eq_some.mp hm

theorem apart_read_iff {requestPrefix : Bytes} {offset count : Nat} :
    w.inflight.all (w.responses.rpcResponses.contains ·) = true ↔
      w.Apart (.read name requestPrefix offset count) := by
  simp only [Option.all_eq_true, ExtTreeMap.contains_eq_isSome_getElem?,
    Option.isSome_iff_ne_none, Apart]

instance (w : Reads) (action : ReadAction) : Decidable (w.Apart action) :=
  match action with
  | .read _ _ _ _ => decidable_of_iff _ apart_read_iff
  | .turn _ _ _ => decidable_of_iff _ apart_turn_iff
  | .write _ _ _ | .complete _ _ _ | .other _ => .isTrue trivial

/-- A request that a read waits for, or that the next read joins. -/
def Needed (w : Reads) (id : Nat) : Prop :=
  (∃ name, w.Waits name id) ∨ w.inflight = some id ∧ w.responses.rpcResponses[id]? ≠ none

/-- Two states that are the same to the reads of the fid. -/
structure Same (w v : Reads) : Prop where
  next : w.responses.nextRequestId = v.responses.nextRequestId
  buffer : w.rpcBuffer = v.rpcBuffer
  inflight : w.inflight = v.inflight
  reads : w.reads = v.reads
  agree : ∀ id, w.Needed id → w.responses.Agree v.responses id

theorem waits_insert {other : Nat}
    (h : Waits { w with reads := w.reads.insert name read } other id) :
    other = name ∧ id = read.requestId ∨ w.Waits other id := by
  obtain ⟨found, hf, rfl⟩ := h
  dsimp only at hf
  rw [get_insert] at hf
  split at hf
  · next heq =>
    cases hf
    exact .inl ⟨heq.symm, rfl⟩
  · exact .inr ⟨found, hf, rfl⟩

theorem waits_erase {other : Nat} (h : Waits { w with reads := w.reads.erase name } other id) :
    other ≠ name ∧ w.Waits other id := by
  obtain ⟨found, hf, rfl⟩ := h
  dsimp only at hf
  rw [get_erase] at hf
  split at hf
  · cases hf
  · next hne => exact ⟨fun heq => hne heq.symm, found, hf, rfl⟩

end Reads

namespace Responses

variable {r r' : Responses} {requestPrefix : Bytes} {requestId id offset count : Nat}
  {reply : RequestReply} {cancelled expired : Bool}

/-- An answer that is accepted: the request waits, and has this prefix. -/
def Accepts (r : Responses) (requestPrefix : Bytes) (requestId : Nat) : Prop :=
  r.rpcResponses[requestId]? = some none ∧ ∃ trimmed,
    normaliseRequestPrefix requestPrefix = .ok trimmed ∧
      r.responsePrefixes[requestId]? = some trimmed

/-- What an answer does. -/
theorem complete_cases (r : Responses) (requestPrefix : Bytes) (requestId : Nat)
    (reply : RequestReply) : (complete requestPrefix requestId reply).wp (fun _ r' =>
      r.Accepts requestPrefix requestId ∧
        r' = { r with rpcResponses := r.rpcResponses.insert requestId (some reply) } ∨
      ¬ r.Accepts requestPrefix requestId ∧ r' = r) r := by
  refine wp_ask_bind (fun e he => .inr ⟨?_, rfl⟩) fun trimmed ht => ?_
  · rintro ⟨_, _, ht, _⟩
    cases ht.symm.trans he
  refine wp_ask_bind (fun e he => .inr ⟨?_, rfl⟩) fun _ hp => ?_
  · rintro ⟨_, _, ht', hp⟩
    cases ht.symm.trans ht'
    rw [if_neg (not_not_intro hp)] at he
    cases he
  refine wp_ask_bind (fun e he => .inr ⟨?_, rfl⟩) fun slot hs => ?_
  · rintro ⟨hs, _⟩
    rw [hs] at he
    cases he
  have hs : r.rpcResponses[requestId]? = some slot := by
    cases hf : r.rpcResponses[requestId]? with
    | none =>
      rw [hf] at hs
      cases hs
    | some found =>
      rw [hf] at hs
      exact congrArg some (Except.ok.inj hs)
  refine wp_refuseIf_bind (fun hr => .inr ⟨?_, rfl⟩) fun hr => ?_
  · rintro ⟨hn, _⟩
    cases hs.symm.trans hn
    cases hr
  rw [wp_update]
  refine .inl ⟨⟨?_, trimmed, ht, ?_⟩, rfl⟩
  · rw [hs, Option.isSome_eq_false_iff.mp hr |> Option.isNone_iff_eq_none.mp]
  · by_contra hne
    rw [if_pos hne] at hp
    cases hp

/-- The entries after an answer. -/
theorem entry_complete (r : Responses) (requestPrefix : Bytes) (requestId : Nat)
    (reply : RequestReply) (id : Nat) : (complete requestPrefix requestId reply).wp (fun _ r' =>
      r'.responsePrefixes = r.responsePrefixes ∧ r'.nextRequestId = r.nextRequestId ∧
      (id = requestId ∧ r.Accepts requestPrefix requestId ∧
          r'.rpcResponses[id]? = some (some reply) ∨
        ¬ (id = requestId ∧ r.Accepts requestPrefix requestId) ∧
          r'.rpcResponses[id]? = r.rpcResponses[id]?)) r := by
  refine (complete_cases r requestPrefix requestId reply).mono fun _ r' h => ?_
  rcases h with ⟨ha, rfl⟩ | ⟨ha, rfl⟩
  · refine ⟨rfl, rfl, ?_⟩
    dsimp only
    rw [get_insert]
    split
    · next heq => exact .inl ⟨heq.symm, ha, rfl⟩
    · next hne => exact .inr ⟨fun h => hne h.1.symm, rfl⟩
  · exact ⟨rfl, rfl, .inr ⟨fun h => ha h.2, rfl⟩⟩

theorem Agree.ask (hnx : r.nextRequestId = r'.nextRequestId)
    (h : id ≠ r.nextRequestId → r.Agree r' id) :
    (r.ask requestPrefix).Agree (r'.ask requestPrefix) id := by
  unfold Agree Responses.ask
  dsimp only
  rw [← hnx, get_insert, get_insert, get_insert, get_insert]
  by_cases hid : r.nextRequestId = id
  · rw [if_pos hid, if_pos hid, if_pos hid, if_pos hid]
    exact ⟨rfl, fun _ => rfl⟩
  · rw [if_neg hid, if_neg hid, if_neg hid, if_neg hid]
    exact h (Ne.symm hid)

theorem Agree.removed (h : id ≠ requestId → r.Agree r' id)
    (hid : id = requestId → r'.rpcResponses[id]? = none) :
    (r.removeResponseRequest requestId).Agree r' id := by
  unfold Agree removeResponseRequest
  dsimp only
  rw [get_erase, get_erase]
  by_cases heq : requestId = id
  · rw [if_pos heq, if_pos heq, hid heq.symm]
    exact ⟨rfl, fun hne => absurd rfl hne⟩
  · rw [if_neg heq, if_neg heq]
    exact h (Ne.symm heq)

theorem Agree.remove (h : id ≠ requestId → r.Agree r' id) :
    (r.removeResponseRequest requestId).Agree (r'.removeResponseRequest requestId) id := by
  refine .removed (fun hne => ?_) fun heq => ?_
  · unfold Agree removeResponseRequest
    dsimp only
    rw [get_erase, get_erase, if_neg hne.symm, if_neg hne.symm]
    exact h hne
  · exact get_erase.trans (if_pos heq.symm)

theorem Agree.accepts (h : r.Agree r' requestId) :
    r.Accepts requestPrefix requestId ↔ r'.Accepts requestPrefix requestId := by
  obtain ⟨he, hp⟩ := h
  unfold Accepts
  rw [he] at hp ⊢
  refine and_congr_right fun hn => ?_
  rw [hp (by rw [hn]; exact Option.some_ne_none _)]

theorem Agree.complete (h : r.Agree r' id) :
    ((complete requestPrefix requestId reply).exec r).2.Agree
      ((complete requestPrefix requestId reply).exec r').2 id := by
  obtain ⟨hp, _, hc⟩ := entry_complete r requestPrefix requestId reply id
  obtain ⟨hp', _, hc'⟩ := entry_complete r' requestPrefix requestId reply id
  unfold Agree
  rw [hp, hp']
  rcases hc with ⟨rfl, ha, he⟩ | ⟨hno, he⟩
  · rcases hc' with ⟨_, _, he'⟩ | ⟨hno', _⟩
    · rw [he, he']
      exact ⟨rfl, fun _ => h.2 (by rw [ha.1]; exact Option.some_ne_none _)⟩
    · exact absurd ⟨rfl, h.accepts.mp ha⟩ hno'
  · rcases hc' with ⟨rfl, ha', _⟩ | ⟨_, he'⟩
    · exact absurd ⟨rfl, h.accepts.mpr ha'⟩ hno
    · rw [he, he']
      exact h

/-- The result of a turn is read off the entry. -/
theorem readRpc_congr (h : r.rpcResponses[requestId]? = r'.rpcResponses[requestId]?) :
    (r.readRpc requestId offset count cancelled expired).1 =
      (r'.readRpc requestId offset count cancelled expired).1 := by
  unfold readRpc
  cases cancelled with
  | true => rfl
  | false =>
    rw [if_neg Bool.false_ne_true, if_neg Bool.false_ne_true, h]
    cases r'.rpcResponses[requestId]? with
    | none => rfl
    | some slot =>
      cases slot with
      | some reply => rfl
      | none => cases expired <;> rfl

/-- A turn leaves the responses, or ends the read and strikes its entry out. -/
theorem readRpc_cases (r : Responses) (requestId offset count : Nat) (cancelled expired : Bool) :
    (r.readRpc requestId offset count cancelled expired).2 = r ∨
    (r.readRpc requestId offset count cancelled expired).2 = r.removeResponseRequest requestId ∧
      (r.readRpc requestId offset count cancelled expired).1 ≠ none ∧
      (cancelled = true ∨
        cancelled = false ∧ expired = true ∧ r.rpcResponses[requestId]? = some none) := by
  unfold readRpc
  cases cancelled with
  | true => exact .inr ⟨rfl, Option.some_ne_none _, .inl rfl⟩
  | false =>
    rw [if_neg Bool.false_ne_true]
    cases r.rpcResponses[requestId]? with
    | none => exact .inl rfl
    | some slot =>
      cases slot with
      | some reply => exact .inl rfl
      | none =>
        cases expired with
        | false => exact .inl rfl
        | true => exact .inr ⟨rfl, Option.some_ne_none _, .inr ⟨rfl, rfl, rfl⟩⟩

end Responses

namespace Reads

/-- What a turn leaves: the read may have ended, and the entry of its request may be gone, which
then no other read waits for unless it was gone before. -/
theorem next_turn {cancelled expired : Bool} (ha : w.Apart (.turn name cancelled expired))
    (hn : w.next snapshot (.turn name cancelled expired) = some w') :
    ∃ read : RelayRead, w.reads[name]? = some read ∧
      w'.rpcBuffer = w.rpcBuffer ∧ w'.inflight = w.inflight ∧
      w'.responses.nextRequestId = w.responses.nextRequestId ∧
      w'.reads = (if (w.responses.readRpc read.requestId read.offset read.count cancelled
        expired).1 = none then w.reads else w.reads.erase name) ∧
      (w'.responses = w.responses ∨
        w'.responses = w.responses.removeResponseRequest read.requestId ∧
        ∀ other, w'.Waits other read.requestId →
          w.responses.rpcResponses[read.requestId]? = none) := by
  obtain ⟨read, hr, rfl⟩ := Option.map_eq_some_iff.mp hn
  refine ⟨read, hr, ?_⟩
  have hcs :=
    w.responses.readRpc_cases read.requestId read.offset read.count cancelled expired
  generalize w.responses.readRpc read.requestId read.offset read.count cancelled expired =
    result at hcs ⊢
  obtain ⟨outcome, responses⟩ := result
  rcases hcs with hc | ⟨hc, hne, hst⟩
  · cases hc
    cases outcome with
    | none => exact ⟨rfl, rfl, rfl, rfl, .inl rfl⟩
    | some outcome => exact ⟨rfl, rfl, rfl, rfl, .inl rfl⟩
  · cases hc
    cases outcome with
    | none => exact absurd rfl hne
    | some outcome =>
      refine ⟨rfl, rfl, rfl, rfl, .inr ⟨rfl, fun other hw => ?_⟩⟩
      obtain ⟨hno, hw⟩ := waits_erase (w := w) hw
      by_contra hen
      refine hno (ha read hr ?_ other hw)
      exact hst.imp (fun hcn => ⟨hcn, hen⟩) id

theorem readTargetAt_joins (hi : w.inflight = some id)
    (he : w.responses.rpcResponses[id]? ≠ none) (requestPrefix : Bytes) (offset count : Nat) :
    w.readTargetAt snapshot name requestPrefix offset count =
      { w with reads := w.reads.insert name ⟨id, offset, count⟩ } := by
  have hj : w.joins snapshot = some id := by
    unfold joins
    rw [hi]
    refine Option.filter_eq_some_iff.mpr ⟨rfl, ?_⟩
    rw [ExtTreeMap.contains_eq_isSome_getElem?, Option.isSome_iff_ne_none.mpr he, Bool.or_true]
  unfold readTargetAt
  rw [hj]

/-- A read of a fid that remembers no request asks, or is refused. -/
theorem readTargetAt_asks (w : Reads) (snapshot : Bool) (name : Nat) (requestPrefix : Bytes)
    (offset count : Nat) :
    (∃ asked, ∀ v : Reads, v.rpcBuffer = w.rpcBuffer → v.inflight = none →
      v.readTargetAt snapshot name requestPrefix offset count = v.asks name asked offset count) ∨
    ∀ v : Reads, v.rpcBuffer = w.rpcBuffer → v.inflight = none →
      v.readTargetAt snapshot name requestPrefix offset count = v := by
  have hj : ∀ v : Reads, v.inflight = none → v.joins snapshot = none := by
    intro v hv
    unfold joins
    rw [hv]
    rfl
  cases snapshot with
  | true =>
    refine .inl ⟨requestPrefix, fun v _ hv => ?_⟩
    unfold readTargetAt
    rw [hj v hv]
    rfl
  | false =>
    cases hb : w.rpcBuffer with
    | some buffer =>
      refine .inl ⟨buffer.requestPrefix, fun v hvb hv => ?_⟩
      unfold readTargetAt
      rw [hj v hv, hvb]
      rfl
    | none =>
      refine .inr fun v hvb hv => ?_
      unfold readTargetAt
      rw [hj v hv, hvb]
      rfl

/-- A write that is acknowledged makes the fid forget its request. -/
theorem write_cases (w : Reads) (requestPrefix : Bytes) (offset : Nat) (data : Bytes) :
    (∀ v : Reads, v.rpcBuffer = w.rpcBuffer → v.inflight = w.inflight →
      v.write requestPrefix offset data = v) ∨
    ∃ buffer, ∀ v : Reads, v.rpcBuffer = w.rpcBuffer → v.inflight = w.inflight →
      v.write requestPrefix offset data = { v.giveUp with rpcBuffer := buffer } := by
  by_cases hl : 2 ^ 32 ≤ data.length
  · refine .inl fun v _ _ => ?_
    unfold write
    rw [if_pos hl]
  by_cases ho : w.inflight.isSome ∧ offset ≠ 0
  · refine .inl fun v _ hv => ?_
    unfold write
    rw [if_neg hl, hv, if_pos ho]
  cases hb : RpcBuffer.write requestPrefix offset data w.rpcBuffer with
  | ok buffer =>
    refine .inr ⟨some buffer, fun v hvb hv => ?_⟩
    unfold write
    rw [if_neg hl, hv, if_neg ho, hvb, hb]
  | error e =>
    refine .inr ⟨w.rpcBuffer, fun v hvb hv => ?_⟩
    unfold write
    rw [if_neg hl, hv, if_neg ho, hvb, hb]
    have hg : v.giveUp.rpcBuffer = w.rpcBuffer := by
      unfold giveUp
      split <;> exact hvb
    rw [← hg]

theorem Needed.of_step (h : w'.Needed id) (hi : w'.inflight = w.inflight)
    (hr : ∀ name, w'.Waits name id → w.Waits name id)
    (he : w.responses.rpcResponses[id]? = none → w'.responses.rpcResponses[id]? = none) :
    w.Needed id := by
  rcases h with ⟨name, h⟩ | ⟨h, hn⟩
  · exact .inl ⟨name, hr name h⟩
  · exact .inr ⟨hi ▸ h, fun hno => hn (he hno)⟩

section
variable {cancelled expired : Bool} (ha : w.Apart (.turn name cancelled expired))
  (hn : w.next snapshot (.turn name cancelled expired) = some w')
include ha hn

theorem waits_of_turn (other id : Nat) (h : w'.Waits other id) : w.Waits other id := by
  obtain ⟨read, _, _, _, _, hrd, _⟩ := next_turn ha hn
  obtain ⟨found, hf, rfl⟩ := h
  rw [hrd] at hf
  split at hf
  · exact ⟨found, hf, rfl⟩
  · exact (waits_erase ⟨found, hf, rfl⟩).2

/-- A read that ends strikes out nothing that is needed. -/
theorem Same.turn (h : w.Same v) :
    ∃ v', v.spares snapshot (.turn name cancelled expired) = some v' ∧ w'.Same v' := by
  obtain ⟨read, hr, hb, hi, hnx, hrd, hrs⟩ := next_turn ha hn
  have ho : (w.responses.readRpc read.requestId read.offset read.count cancelled expired).1 =
      (v.responses.readRpc read.requestId read.offset read.count cancelled expired).1 :=
    Responses.readRpc_congr (h.agree _ (.inl ⟨name, read, hr, rfl⟩)).1
  have hwt := waits_of_turn ha hn
  refine ⟨{ v with reads := w'.reads }, ?_, hnx.trans h.next, hb.trans h.buffer,
    hi.trans h.inflight, rfl, fun id hnd => ?_⟩
  · dsimp only [spares]
    rw [← h.reads, hr, Option.map_some, ← ho, hrd]
    split
    · rw [h.reads]
    · rw [h.reads]
  · rcases hrs with hrs | ⟨hrs, hgo⟩
    · rw [hrs]
      exact h.agree id (hnd.of_step hi (hwt · id) fun hno => by rwa [hrs])
    · have hno : id = read.requestId → w'.responses.rpcResponses[id]? = none := by
        rintro rfl
        rw [hrs]
        exact get_erase.trans (if_pos rfl)
      rw [hrs]
      refine .removed (fun hne => ?_) fun heq => ?_
      · refine h.agree id (hnd.of_step hi (hwt · id) fun hn => ?_)
        rw [hrs]
        exact get_erase.trans ((if_neg hne.symm).trans hn)
      · rcases hnd with ⟨other, hw⟩ | ⟨_, hne⟩
        · have hn := hgo other (heq ▸ hw)
          rw [← heq] at hn
          exact (h.agree id (.inl ⟨other, hwt other id hw⟩)).1.symm.trans hn
        · exact absurd (hno heq) hne

end

theorem Same.readTargetAt (h : w.Same v) (requestPrefix : Bytes) (offset count : Nat)
    (ha : ∀ id, w.inflight = some id → w.responses.rpcResponses[id]? ≠ none) :
    (w.readTargetAt snapshot name requestPrefix offset count).Same
      (v.readTargetAt snapshot name requestPrefix offset count) := by
  rcases Option.eq_none_or_eq_some w.inflight with hi | ⟨id, hi⟩
  · have hv : v.inflight = none := h.inflight.symm.trans hi
    rcases readTargetAt_asks w snapshot name requestPrefix offset count with ⟨asked, hw⟩ | hw
    · rw [hw w rfl hi, hw v h.buffer.symm hv]
      refine ⟨congrArg (fun n => min (n + 1) _) h.next, rfl, congrArg some h.next, ?_, ?_⟩
      · dsimp only [asks]
        rw [h.reads, h.next]
      · intro id hnd
        refine .ask h.next fun hne => h.agree id ?_
        rcases hnd with ⟨other, hw⟩ | ⟨hin, _⟩
        · rcases waits_insert (w := w) hw with ⟨_, heq⟩ | hw
          · exact absurd heq hne
          · exact .inl ⟨other, hw⟩
        · exact absurd (Option.some.inj hin).symm hne
    · rw [hw w rfl hi, hw v h.buffer.symm hv]
      exact h
  · have hnd : w.Needed id := .inr ⟨hi, ha id hi⟩
    have hv : v.responses.rpcResponses[id]? ≠ none := (h.agree id hnd).1 ▸ ha id hi
    rw [readTargetAt_joins hi (ha id hi), readTargetAt_joins (h.inflight.symm.trans hi) hv]
    refine ⟨h.next, h.buffer, h.inflight, ?_, fun other ho => h.agree other ?_⟩
    · dsimp only
      rw [h.reads]
    · rcases ho with ⟨reader, hw⟩ | hin
      · rcases waits_insert (w := w) hw with ⟨_, rfl⟩ | hw
        · exact hnd
        · exact .inl ⟨reader, hw⟩
      · exact .inr hin

theorem Same.giveUp (h : w.Same v) (buffer : Option RpcBuffer) :
    Same { w.giveUp with rpcBuffer := buffer } { v.giveUp with rpcBuffer := buffer } := by
  unfold Reads.giveUp
  rw [← h.inflight]
  cases hi : w.inflight with
  | none =>
    refine ⟨h.next, rfl, h.inflight, h.reads, fun id hnd => h.agree id ?_⟩
    exact hnd.of_step rfl (fun _ hw => hw) fun hno => hno
  | some previous =>
    refine ⟨h.next, rfl, rfl, h.reads, fun id hnd => .remove fun hne => h.agree id ?_⟩
    rcases hnd with ⟨name, hw⟩ | ⟨hin, _⟩
    · exact .inl ⟨name, hw⟩
    · cases hin

/-- Each step is one of the runs in which no read has an effect on another. -/
theorem Same.next_step (h : w.Same v) (ha : w.Apart action)
    (hn : w.next snapshot action = some w') :
    ∃ v', v.spares snapshot action = some v' ∧ w'.Same v' := by
  cases action with
  | write requestPrefix offset data =>
    dsimp only [spares, Reads.next] at hn ⊢
    split at hn
    · cases hn
    · next hsn =>
      rw [if_neg hsn]
      cases hn
      refine ⟨_, rfl, ?_⟩
      rcases write_cases w requestPrefix offset data with hw | ⟨buffer, hw⟩
      · rw [hw w rfl rfl, hw v h.buffer.symm h.inflight.symm]
        exact h
      · rw [hw w rfl rfl, hw v h.buffer.symm h.inflight.symm]
        exact h.giveUp buffer
  | read name requestPrefix offset count =>
    cases hn
    exact ⟨_, rfl, h.readTargetAt requestPrefix offset count ha⟩
  | turn name cancelled expired => exact h.turn ha hn
  | complete requestPrefix requestId reply =>
    cases hn
    obtain ⟨_, hnx, _⟩ := Responses.entry_complete w.responses requestPrefix requestId reply 0
    obtain ⟨_, hnv, _⟩ := Responses.entry_complete v.responses requestPrefix requestId reply 0
    refine ⟨_, rfl, hnx.trans (h.next.trans hnv.symm), h.buffer, h.inflight, h.reads,
      fun id hnd => (h.agree id ?_).complete⟩
    refine hnd.of_step rfl (fun _ hw => hw) fun hno => ?_
    obtain ⟨_, _, ⟨rfl, hac, _⟩ | ⟨_, he⟩⟩ :=
      Responses.entry_complete w.responses requestPrefix requestId reply id
    · cases hno.symm.trans hac.1
    · exact he.trans hno
  | other requestPrefix =>
    cases hn
    refine ⟨_, rfl, congrArg (fun n => min (n + 1) _) h.next, h.buffer, h.inflight, h.reads,
      fun id hnd => .ask h.next fun hne => h.agree id ?_⟩
    refine hnd.of_step rfl (fun _ hw => hw) fun hno => ?_
    exact get_insert.trans ((if_neg hne.symm).trans hno)

theorem same_of_run (run : ((reading snapshot).restrict Apart).Run history w) :
    ∃ v, (undisturbed snapshot).Run history v ∧ w.Same v := by
  refine run.invariant (I := fun history w => ∃ v, (undisturbed snapshot).Run history v ∧ w.Same v)
    (fun w hw => ⟨w, .start hw, rfl, rfl, rfl, rfl, fun _ _ => ⟨rfl, fun _ => rfl⟩⟩) ?_
  rintro history w action w' _ ⟨v, hv, h⟩ ⟨ha, hn⟩
  obtain ⟨v', hv', h'⟩ := h.next_step ha hn
  exact ⟨v', hv.next hv', h'⟩

end Reads

/-- Every reply is the owner's. -/
def Told (history : List ReadAction) (r : Responses) : Prop :=
  ∀ (id : Nat) (reply : RequestReply), r.rpcResponses[id]? = some (some reply) →
    ∃ requestPrefix, .complete requestPrefix id reply ∈ history

namespace Told

variable {history : List ReadAction} {r : Responses} {action : ReadAction} (h : Told history r)
include h

theorem later : Told (action :: history) r := by
  intro id reply he
  obtain ⟨requestPrefix, hm⟩ := h id reply he
  exact ⟨requestPrefix, List.mem_cons_of_mem _ hm⟩

theorem ask (requestPrefix : Bytes) : Told history (r.ask requestPrefix) := by
  intro id reply he
  dsimp only [Responses.ask] at he
  rw [get_insert] at he
  split at he
  · cases he
  · exact h id reply he

theorem remove (requestId : Nat) : Told history (r.removeResponseRequest requestId) := by
  intro id reply he
  dsimp only [Responses.removeResponseRequest] at he
  rw [get_erase] at he
  split at he
  · cases he
  · exact h id reply he

theorem complete (requestPrefix : Bytes) (requestId : Nat) (reply : RequestReply) :
    Told (.complete requestPrefix requestId reply :: history)
      ((Responses.complete requestPrefix requestId reply).exec r).2 := by
  intro id other he
  obtain ⟨_, _, ⟨rfl, _, hn⟩ | ⟨_, hn⟩⟩ := r.entry_complete requestPrefix requestId reply id
  · cases hn.symm.trans he
    exact ⟨requestPrefix, List.mem_cons_self⟩
  · exact h.later id other (hn.symm.trans he)

end Told

namespace Reads

variable {snapshot : Bool} {history : List ReadAction} {w w' : Reads} {action : ReadAction}

/-- Reads that wait for the request that the fid remembers find its entry, and on a snapshot relay
all of them do. -/
structure Kept (snapshot : Bool) (history : List ReadAction) (w : Reads) : Prop where
  entry : ∀ name id, w.Waits name id → w.inflight = some id →
    w.responses.rpcResponses[id]? ≠ none
  own : snapshot = true → ∀ name id, w.Waits name id → w.inflight = some id
  told : Told history w.responses

theorem Kept.turn {name : Nat} {cancelled expired : Bool} (h : Kept snapshot history w)
    (ha : w.Apart (.turn name cancelled expired))
    (hn : w.next snapshot (.turn name cancelled expired) = some w') :
    Kept snapshot (.turn name cancelled expired :: history) w' := by
  obtain ⟨read, _, _, hi, _, hrd, hrs⟩ := next_turn ha hn
  have hwt := waits_of_turn ha hn
  refine ⟨fun other id hw hin => ?_, fun hs other id hw => ?_, ?_⟩
  · have he := h.entry other id (hwt other id hw) (hi ▸ hin)
    rcases hrs with hrs | ⟨hrs, hgo⟩
    · rwa [hrs]
    · rw [hrs]
      by_cases heq : read.requestId = id
      · exact absurd (hgo other (heq ▸ hw)) (heq ▸ he)
      · exact fun hno => he ((get_erase.trans (if_neg heq)).symm.trans hno)
  · exact hi.trans (h.own hs other id (hwt other id hw))
  · rcases hrs with hrs | ⟨hrs, _⟩
    · rw [hrs]
      exact h.told.later
    · rw [hrs]
      exact (h.told.remove _).later

theorem Kept.readTargetAt {name : Nat} {requestPrefix : Bytes} {offset count : Nat}
    (h : Kept snapshot history w) (ha : w.Apart (.read name requestPrefix offset count)) :
    Kept snapshot history (w.readTargetAt snapshot name requestPrefix offset count) := by
  rcases Option.eq_none_or_eq_some w.inflight with hi | ⟨id, hi⟩
  · rcases readTargetAt_asks w snapshot name requestPrefix offset count with ⟨asked, hw⟩ | hw
    · rw [hw w rfl hi]
      refine ⟨fun other id _ hin => ?_, fun hs other id hw => ?_, h.told.ask asked⟩
      · obtain rfl := Option.some.inj hin
        exact fun hno => Option.some_ne_none _ ((get_insert.trans (if_pos rfl)).symm.trans hno)
      · rcases waits_insert (w := w) hw with ⟨_, rfl⟩ | hw
        · rfl
        · cases hi.symm.trans (h.own hs other id hw)
    · rw [hw w rfl hi]
      exact h
  · rw [readTargetAt_joins hi (ha id hi)]
    refine ⟨fun other id _ hin => ha id hin, fun hs other id hw => ?_, h.told⟩
    rcases waits_insert (w := w) hw with ⟨_, rfl⟩ | hw
    · exact hi
    · exact h.own hs other id hw

theorem Kept.next (h : Kept snapshot history w) (ha : w.Apart action)
    (hn : w.next snapshot action = some w') : Kept snapshot (action :: history) w' := by
  cases action with
  | write requestPrefix offset data =>
    dsimp only [Reads.next] at hn
    split at hn
    · cases hn
    · next hs =>
      cases hn
      rcases write_cases w requestPrefix offset data with hw | ⟨buffer, hw⟩
      · rw [hw w rfl rfl]
        exact ⟨h.entry, h.own, h.told.later⟩
      · rw [hw w rfl rfl]
        unfold giveUp
        cases hi : w.inflight with
        | none => exact ⟨h.entry, h.own, h.told.later⟩
        | some previous =>
          refine ⟨fun _ _ _ hin => ?_, fun hst => absurd hst hs, (h.told.remove previous).later⟩
          cases hin
  | read name requestPrefix offset count =>
    cases hn
    have hk := h.readTargetAt ha
    exact ⟨hk.entry, hk.own, hk.told.later⟩
  | turn name cancelled expired => exact h.turn ha hn
  | complete requestPrefix requestId reply =>
    cases hn
    refine ⟨fun name id hw hin hno => ?_, h.own, h.told.complete requestPrefix requestId reply⟩
    obtain ⟨_, _, ⟨_, _, he⟩ | ⟨_, he⟩⟩ :=
      w.responses.entry_complete requestPrefix requestId reply id
    · cases he.symm.trans hno
    · exact h.entry name id hw hin (he.symm.trans hno)
  | other requestPrefix =>
    cases hn
    refine ⟨fun name id hw hin hno => ?_, h.own, (h.told.ask requestPrefix).later⟩
    dsimp only [Responses.ask] at hno
    rw [get_insert] at hno
    split at hno
    · cases hno
    · exact h.entry name id hw hin hno

theorem kept_of_run (run : ((reading snapshot).restrict Apart).Run history w) :
    Kept snapshot history w := by
  refine run.invariant (I := Kept snapshot) ?_ fun _ _ _ _ _ h hs => h.next hs.1 hs.2
  rintro w ⟨_, hi, hrd, hr⟩
  have hw : ∀ name id, ¬ w.Waits name id := by
    rintro name id ⟨read, hf, _⟩
    rw [hrd] at hf
    cases hf
  refine ⟨fun name id h => absurd h (hw name id), fun _ name id h => absurd h (hw name id), ?_⟩
  intro id reply h
  rw [hr] at h
  cases h

end Reads

/-- In every run in which no read strikes out a response that another one waits for, and none begins
on a request that was struck out, every read returns what it returns in the run of the same steps in
which reads leave the responses alone. A read that is not cancelled ends with the owner's reply to
its request, at its offset, unless its time is up before there is one or a write to the file has
begun the next request. -/
theorem relay_read_gets_reply {snapshot : Bool} {history : List ReadAction} {w : Reads}
    (run : ((reading snapshot).restrict Reads.Apart).Run history w) :
    ∃ v, (undisturbed snapshot).Run history v ∧ w.reads = v.reads ∧
    ∀ (name : Nat) (read : RelayRead), w.reads[name]? = some read →
      (∀ cancelled expired,
        (w.responses.readRpc read.requestId read.offset read.count cancelled expired).1 =
          (v.responses.readRpc read.requestId read.offset read.count cancelled expired).1) ∧
      ∀ expired outcome,
        (w.responses.readRpc read.requestId read.offset read.count false expired).1 =
          some outcome →
        (∃ requestPrefix reply, .complete requestPrefix read.requestId reply ∈ history ∧
          outcome = reply.read read.offset read.count) ∨
        (expired = true ∧ w.responses.rpcResponses[read.requestId]? = some none) ∨
        (snapshot = false ∧ w.inflight ≠ some read.requestId ∧
          outcome = .error (.fromStatic ENOENT)) := by
  obtain ⟨v, hv, hs⟩ := Reads.same_of_run run
  have h := Reads.kept_of_run run
  refine ⟨v, hv, hs.reads, fun name read found => ⟨fun cancelled expired => ?_, ?_⟩⟩
  · exact Responses.readRpc_congr (hs.agree _ (.inl ⟨name, read, found, rfl⟩)).1
  · intro expired outcome ends
    have hw : w.Waits name read.requestId := ⟨read, found, rfl⟩
    unfold Responses.readRpc at ends
    rw [if_neg Bool.false_ne_true] at ends
    cases he : w.responses.rpcResponses[read.requestId]? with
    | none =>
      have hin : w.inflight ≠ some read.requestId := fun hin => h.entry name _ hw hin he
      rw [he] at ends
      refine .inr (.inr ⟨?_, hin, (Option.some.inj ends).symm⟩)
      cases snapshot with
      | false => rfl
      | true => exact absurd (h.own rfl name _ hw) hin
    | some slot =>
      rw [he] at ends
      cases slot with
      | some reply =>
        cases ends
        obtain ⟨requestPrefix, hm⟩ := h.told _ reply he
        exact .inl ⟨requestPrefix, reply, hm, rfl⟩
      | none =>
        dsimp only at ends
        split at ends
        · next hex => exact .inr (.inl ⟨hex, rfl⟩)
        · cases ends

/-- Before the first write. -/
def unread : Reads := ⟨⟨0, ∅, ∅⟩, none, none, ∅⟩

/-- A read that is cancelled, and after the next write two reads at different offsets. -/
def sharedReads : List ReadAction :=
  [.write (utf8 "p") 0 (utf8 "q"), .read 1 (utf8 "p") 0 1, .turn 1 true false,
    .write (utf8 "p") 0 (utf8 "r"), .read 2 (utf8 "p") 0 1, .read 3 (utf8 "p") 1 5,
    .complete (utf8 "p") 1 (.accepted (utf8 "abc")), .turn 2 false false]

theorem relay_read_gets_reply_shared : ∃ w,
    ((reading false).restrict Reads.Apart).Run sharedReads.reverse w ∧
    (w.responses.readRpc 1 1 5 false false).1 = some (.ok (utf8 "bc")) ∧
    ∃ requestPrefix reply, .complete requestPrefix 1 reply ∈ sharedReads.reverse ∧
      .ok (utf8 "bc") = reply.read 1 5 := by
  have hv : (sharedReads.foldlM (fun (w : Reads) action =>
      if w.Apart action then w.next false action else none) unread).map (fun w =>
        (w.reads[3]?, w.inflight, (w.responses.readRpc 1 1 5 false false).1)) =
          some (some ⟨1, 1, 5⟩, some 1, some (.ok (utf8 "bc"))) := by decide +kernel
  obtain ⟨w, hrn, hv⟩ := System.Run.of_view (M := (reading false).restrict Reads.Apart)
    ⟨rfl, rfl, rfl, rfl⟩ (fun _ _ _ _ h => Option.ite_none_right_eq_some.mp h) hv
  simp only [Prod.mk.injEq] at hv
  obtain ⟨hr, hi, he⟩ := hv
  refine ⟨w, hrn, he, ?_⟩
  obtain ⟨_, _, _, h⟩ := relay_read_gets_reply hrn
  rcases (h 3 _ hr).2 false _ he with h | h | h
  · exact h
  · exact absurd h.1 (by decide)
  · exact absurd hi h.2.1

/-- Of two reads one is cancelled. The owner cannot answer any more, and the other read finds no
entry. -/
theorem cancelled_read_strikes_out : ∃ w, (reading false).Run
    [.complete (utf8 "p") 0 (.accepted (utf8 "abc")), .turn 1 true false, .read 2 (utf8 "p") 0 5,
      .read 1 (utf8 "p") 0 5, .write (utf8 "p") 0 (utf8 "q")] w ∧ w.reads[2]? = some ⟨0, 0, 5⟩ ∧
    (w.responses.readRpc 0 0 5 false false).1 = some (.error (.fromStatic ENOENT)) := by
  have hv : ([.write (utf8 "p") 0 (utf8 "q"), .read 1 (utf8 "p") 0 5, .read 2 (utf8 "p") 0 5,
      .turn 1 true false, .complete (utf8 "p") 0 (.accepted (utf8 "abc"))].foldlM
        (Reads.next false) unread).map
        (fun w => (w.reads[2]?, (w.responses.readRpc 0 0 5 false false).1)) =
      some (some ⟨0, 0, 5⟩, some (.error (.fromStatic ENOENT))) := by
    decide +kernel
  obtain ⟨w, hrn, hv⟩ := System.Run.of_view (M := reading false) ⟨rfl, rfl, rfl, rfl⟩
    (fun _ _ _ _ h => h) hv
  exact ⟨w, hrn, Prod.mk.inj hv⟩

end R9P.Front
