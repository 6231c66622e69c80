import R9P.Multiplex.Calls

/-!
# Routes of responses

Library `Multiplex`. A tag is in use while anything may still be looked up by it: a caller
before its wait or after its time, a sender in the table, a request or response under way, a
response in the hands of the reader, or a flush aimed at it. As long as no tag in use is
handed out again, the parties that go by one tag are one call.
-/

namespace R9P.Multiplex
open Base Wire Server Client

/-! ### Tags in use -/

/-- The caller will still give its tag or take its sender back. -/
def Phase.HoldsTag : Phase → Prop
  | allocated | registered | broken _ | refused _ | expired => True
  | _ => False

/-- The frame is not written. -/
def Phase.Early : Phase → Prop
  | allocated | registered | broken _ | refused _ => True
  | _ => False

/-- The call has not come to its end. -/
def Phase.Open : Phase → Prop
  | unencoded | failed _ | returned => False
  | _ => True

/-- The call was given up for want of a transport. -/
def Phase.Ended : Phase → Prop
  | refused _ | failed _ | aborted => True
  | _ => False

/-- The server has still to answer, or the reader to read. -/
def Journey.InFlight : Journey → Prop
  | sent | answered _ => True
  | _ => False

/-- Something still goes by the tag of the call. -/
def Uses (responses : ResponseState) (reader : Reader) (i : Nat) (call : Call) : Prop :=
  call.phase.HoldsTag ∨ responses.waiters[call.tag]? = some i ∨ call.journey.InFlight ∨
    ∃ r, reader = .holding i r

namespace Mux

/-- A flush is aimed at the tag. -/
def Targets (s : Mux) (tag : Tag) : Prop :=
  (∃ other : Tag, s.protocol.flushTargets[other]? = some tag) ∨
    ∃ i call, s.calls i = some call ∧ call.oldtag = some tag ∧ call.phase.Open

/-- The tag is in use. -/
def InUse (s : Mux) (tag : Tag) : Prop :=
  (∃ i call, s.calls i = some call ∧ call.tag = tag ∧ Uses s.responses s.reader i call) ∨
    s.Targets tag

/-- No tag in use is within reach of the next allocation, unless its request is pending. -/
def Clear (s : Mux) : Prop :=
  ∀ tag : Tag, s.InUse tag → s.protocol.pending.live[tag]? = none → s.protocol.Distant tag

end Mux

/-! ### The invariant -/

/-- The call holds its response. -/
def Call.Delivered (call : Call) (i : Nat) : Prop :=
  ∃ r, call.inbox.head? = some (.response i r)

/-- The response is under way and the caller waits for it. -/
def Call.Awaited (call : Call) (reader : Reader) (i : Nat) : Prop :=
  call.phase = .waiting ∧ call.inbox = [] ∧
    (call.journey.InFlight ∨ ∃ r, reader = .holding i r)

/-- The transport is not known to be lost. -/
def Up (responses : ResponseState) (reader : Reader) : Prop :=
  responses.terminalError = none ∧ ∀ error, reader ≠ .failing error

/-- What holds of a call. -/
structure CallInv (protocol : Client) (responses : ResponseState) (reader : Reader) (i : Nat)
    (call : Call) : Prop where
  real : call.tag ≠ NOTAG
  unsent : call.phase.Early → call.journey = .unsent
  answered : ∀ m, call.journey = .answered m → m.tag = call.tag
  quiet : call.phase = .allocated → call.inbox = []
  waits : call.phase = .registered ∨ call.phase = .waiting → call.inbox = [] →
    responses.waiters[call.tag]? = some i
  pending : call.flushed = false →
    call.phase = .allocated ∨ call.phase = .registered ∨ call.journey.InFlight →
    protocol.pending.live[call.tag]? ≠ none
  own : ∀ j r, .response j r ∈ call.inbox → j = i ∧ ∃ m, call.journey = .taken m ∧ r = .of m
  clean : call.phase = .registered → call.flushed = false → responses.terminalError = none →
    call.inbox = []
  route : call.journey ≠ .unsent → call.timedOut = false → call.flushed = false →
    Up responses reader → call.Delivered i ∨ call.Awaited reader i
  expired : call.phase = .expired → call.timedOut = true
  ended : call.phase.Ended → responses.terminalError ≠ none

/-- What holds of the whole. -/
structure Inv (s : Mux) : Prop where
  apart : ∀ {i j : Nat} {ci cj : Call}, s.calls i = some ci → s.calls j = some cj →
    Uses s.responses s.reader i ci → Uses s.responses s.reader j cj → ci.tag = cj.tag → i = j
  marked : ∀ {i : Nat} {call : Call}, s.calls i = some call → Uses s.responses s.reader i call →
    s.Targets call.tag → call.flushed = true
  waiter : ∀ (tag : Tag) (i : Nat), s.responses.waiters[tag]? = some i →
    ∃ call, s.calls i = some call ∧ call.tag = tag ∧ call.phase ≠ .allocated
  held : ∀ i r, s.reader = .holding i r →
    ∃ call m, s.calls i = some call ∧ call.journey = .taken m ∧ r = .of m ∧ m.tag = call.tag
  stopped : s.reader = .stopped → s.responses.terminalError ≠ none
  closed : s.responses.terminalError ≠ none → s.responses.waiters = ∅
  call : ∀ i c, s.calls i = some c → CallInv s.protocol s.responses s.reader i c

variable {s s' : Mux} {i j : Nat} {call call' : Call}

/-! ### Lookups -/

theorem set_self (s : Mux) (i : Nat) (call : Call) : (s.set i call).calls i = some call :=
  Function.update_self ..

theorem set_ne (s : Mux) (call : Call) (h : j ≠ i) : (s.set i call).calls j = s.calls j :=
  Function.update_of_ne h ..

theorem setPhase_eq {phase : Phase} (caller : s.calls i = some call) :
    s.setPhase i phase = s.set i { call with phase := phase } := by
  unfold Mux.setPhase Mux.set
  rw [caller]
  rfl

theorem calls_take (s : Mux) (tag : Tag) (d : Delivery) (j : Nat) :
    (s.take tag d).calls j = if s.responses.waiters[tag]? = some j then
      (s.calls j).map (·.push d) else s.calls j := by
  change (if j ∈ (s.responses.waiters[tag]?).toList then _ else _) = _
  simp only [Option.mem_toList]

theorem mem_terminate {responses : ResponseState} {error : Error} :
    j ∈ (responses.terminate error).1 ↔ ∃ tag : Tag, responses.waiters[tag]? = some j := by
  change j ∈ responses.waiters.toList.map Prod.snd ↔ _
  rw [List.mem_map]
  constructor
  · rintro ⟨⟨tag, k⟩, hm, rfl⟩
    exact ⟨tag, Std.ExtTreeMap.mem_toList_iff_getElem?_eq_some.mp hm⟩
  · rintro ⟨tag, h⟩
    exact ⟨(tag, j), Std.ExtTreeMap.mem_toList_iff_getElem?_eq_some.mpr h, rfl⟩

/-! ### What a step leaves alone -/

variable {protocol : Client} {responses : ResponseState} {reader : Reader}
  {responses' : ResponseState}

/-- The parts of a call that only its allocation and a flush set. -/
structure Call.Same (call call' : Call) : Prop where
  tag : call'.tag = call.tag
  oldtag : call'.oldtag = call.oldtag
  flushed : call'.flushed = call.flushed

/-- No tag comes into use. -/
structure Follows (s s' : Mux) : Prop where
  caller : ∀ j c', s'.calls j = some c' → ∃ c, s.calls j = some c ∧ c.Same c' ∧
    (c'.phase.Open → c.phase.Open) ∧
    (Uses s'.responses s'.reader j c' → Uses s.responses s.reader j c)
  targets : ∀ tag oldtag : Tag, s'.protocol.flushTargets[tag]? = some oldtag →
    s.protocol.flushTargets[tag]? = some oldtag

theorem Follows.targets_back (follows : Follows s s') {tag : Tag} (h : s'.Targets tag) :
    s.Targets tag := by
  rcases h with ⟨other, h⟩ | ⟨i, c', hc', ho, hop⟩
  · exact .inl ⟨other, follows.targets other tag h⟩
  · obtain ⟨c, hc, hs, hb, _⟩ := follows.caller i c' hc'
    rw [hs.oldtag] at ho
    exact .inr ⟨i, c, hc, ho, hb hop⟩

theorem Inv.of_follows (h : Inv s) (follows : Follows s s')
    (waiter : ∀ (tag : Tag) (i : Nat), s'.responses.waiters[tag]? = some i →
      ∃ call, s'.calls i = some call ∧ call.tag = tag ∧ call.phase ≠ .allocated)
    (held : ∀ i r, s'.reader = .holding i r →
      ∃ call m, s'.calls i = some call ∧ call.journey = .taken m ∧ r = .of m ∧ m.tag = call.tag)
    (stopped : s'.reader = .stopped → s'.responses.terminalError ≠ none)
    (closed : s'.responses.terminalError ≠ none → s'.responses.waiters = ∅)
    (call : ∀ i c, s'.calls i = some c → CallInv s'.protocol s'.responses s'.reader i c) :
    Inv s' where
  apart := by
    intro i j ci cj hi hj hui huj htg
    obtain ⟨ci₀, hi₀, hsi, _, hbi⟩ := follows.caller i ci hi
    obtain ⟨cj₀, hj₀, hsj, _, hbj⟩ := follows.caller j cj hj
    rw [hsi.tag, hsj.tag] at htg
    exact h.apart hi₀ hj₀ (hbi hui) (hbj huj) htg
  marked := by
    intro i c' hc' hu ht
    obtain ⟨c, hc, hs, _, hb⟩ := follows.caller i c' hc'
    rw [hs.tag] at ht
    rw [hs.flushed]
    exact h.marked hc (hb hu) (follows.targets_back ht)
  waiter := waiter
  held := held
  stopped := stopped
  closed := closed
  call := call

/-- A call that a step does not touch. -/
theorem CallInv.frame {protocol' : Client} {reader' : Reader}
    (h : CallInv protocol responses reader i call)
    (hw : responses.waiters[call.tag]? = some i → responses'.waiters[call.tag]? = some i)
    (hl : call.flushed = false →
      call.phase = .allocated ∨ call.phase = .registered ∨ call.journey.InFlight →
      protocol.pending.live[call.tag]? ≠ none → protocol'.pending.live[call.tag]? ≠ none)
    (her : responses'.terminalError = none → responses.terminalError = none)
    (hup : Up responses' reader' → Up responses reader)
    (hrd : call.phase = .waiting → call.inbox = [] → ∀ r, reader = .holding i r →
      reader' = .holding i r) : CallInv protocol' responses' reader' i call where
  real := h.real
  unsent := h.unsent
  answered := h.answered
  quiet := h.quiet
  waits hph hi := hw (h.waits hph hi)
  pending hfl hph := hl hfl hph (h.pending hfl hph)
  own := h.own
  clean hph hfl hn := h.clean hph hfl (her hn)
  route hj htm hfl hnw := by
    rcases h.route hj htm hfl (hup hnw) with hd | ⟨hph, hi, hwy⟩
    · exact .inl hd
    · right
      refine ⟨hph, hi, ?_⟩
      rcases hwy with hf | ⟨r, hr⟩
      · exact .inl hf
      · exact .inr ⟨r, hrd hph hi r hr⟩
  expired := h.expired
  ended hph hn := h.ended hph (her hn)

/-- A call that gets an error which it was bound to get. -/
theorem CallInv.failure {reader' : Reader}
    (h : CallInv protocol responses reader i call) (hph : call.phase ≠ .allocated)
    (her : responses'.terminalError = none → responses.terminalError = none)
    (hb : call.flushed = true ∨ responses'.terminalError ≠ none ∨
      call.timedOut = true ∧ call.phase ≠ .registered) (error : Error) :
    CallInv protocol responses' reader' i (call.push (.failure error)) where
  real := h.real
  unsent := h.unsent
  answered := h.answered
  quiet hq := absurd hq hph
  waits _ hi := by
    exact absurd hi (by simp [Call.push])
  pending := h.pending
  own j r hm := by
    have ho : .response j r ∈ call.inbox := by simpa [Call.push] using hm
    exact h.own j r ho
  clean hr hfl hn := by
    rcases hb with hf | he | ⟨_, hp⟩
    · exact absurd hf (by simp [show call.flushed = false from hfl])
    · exact absurd hn he
    · exact absurd hr hp
  route hj htm hfl hnw := by
    rcases hb with hf | he | ⟨ht, _⟩
    · exact absurd hf (by simp [show call.flushed = false from hfl])
    · exact absurd hnw.1 he
    · exact absurd ht (by simp [show call.timedOut = false from htm])
  expired := h.expired
  ended hen hn := h.ended hen (her hn)

end R9P.Multiplex
