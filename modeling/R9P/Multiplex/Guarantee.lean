import R9P.Multiplex.Delivery

/-!
# What a multiplexed client guarantees

Library `Multiplex`. As long as no tag in use comes within reach of an allocation, every
response reaches the call that asked for it and no other. A scan that comes round while the
reader stands between its two locks breaks both: a new call takes the tag that was just freed,
and its sender takes the place of the one the response is meant for.
-/

namespace R9P.Multiplex
open Std Base Wire Server Client

variable {s : Mux} {history : List Action}

/-- A client that hands out a tag only with every tag in use out of reach. -/
def clearing : System Mux Action := multiplexed.restrict fun s action =>
  action = .allocate → s.Clear

theorem inv_of_run (run : clearing.Run history s) : Inv s := by
  apply run.invariant (I := fun _ s => Inv s)
  · intro s hc
    obtain ⟨_, _, hrs, hcl, hrd⟩ := hc
    constructor
    · intro i j ci cj hi
      rw [hcl] at hi
      cases hi
    · intro i call hi
      rw [hcl] at hi
      cases hi
    · intro tag i hw
      rw [hrs] at hw
      cases hw
    · intro i r hr
      rw [hrd] at hr
      cases hr
    · intro hs
      rw [hrd] at hs
      cases hs
    · intro _
      rw [hrs]
    · intro i call hi
      rw [hcl] at hi
      cases hi
  · intro _ s action s' _ ih step
    exact ih.step step.2 step.1

/-- In every such run a call finds in its channel no response but the answer to its own
request. A request that was sent, whose call neither timed out nor was flushed, has its answer
there while the transport is up, or the answer is on its way and the sender of the call in its
place; and no call is turned away unless the transport is gone. -/
theorem responses_delivered (run : clearing.Run history s) {i : Nat} {call : Call}
    (caller : s.calls i = some call) :
    (∀ j r, .response j r ∈ call.inbox → j = i ∧ ∃ m, call.journey = .taken m ∧ r = .of m) ∧
    (call.journey ≠ .unsent → call.timedOut = false → call.flushed = false →
      Up s.responses s.reader →
      (∃ r, call.inbox.head? = some (.response i r)) ∨
      (call.phase = .waiting ∧ call.inbox = [] ∧ s.responses.waiters[call.tag]? = some i ∧
        s.reader ≠ .stopped ∧ (call.journey = .sent ∨ (∃ m, call.journey = .answered m) ∨
          ∃ r, s.reader = .holding i r))) ∧
    (∀ error, call.phase = .refused error → s.responses.terminalError ≠ none) := by
  have hin := inv_of_run run
  have hc := hin.call i call caller
  refine ⟨hc.own, ?_, ?_⟩
  · intro hjr ht hfl hup
    rcases hc.route hjr ht hfl hup with hd | ⟨hp, hi, hw⟩
    · exact .inl hd
    · right
      refine ⟨hp, hi, hc.waits (.inr hp) hi, ?_, ?_⟩
      · intro hs
        exact hin.stopped hs hup.1
      · rcases hw with hf | hh
        · cases hj : call.journey with
          | sent => exact .inl rfl
          | answered m => exact .inr (.inl ⟨m, rfl⟩)
          | unsent => exact absurd hj hjr
          | taken m | dropped =>
            rw [hj] at hf
            cases hf
        · exact .inr (.inr hh)
  · intro error hp
    exact hc.ended (by rw [hp]; trivial)

/-! ### A client with one call -/

/-- The protocol client once its session is open and attached. -/
def connectedClient : Client :=
  let opening := (Client.new.versionRequestFor 8192 .plain).2
  let opened := ((receive (.version NOTAG 8192 (utf8 "9P2000"))).exec opening).2
  let attaching := ((Client.attach (utf8 "glenda") []).exec opened).2
  ((receive (.attach 0 ⟨0x80, 0, 1⟩)).exec attaching).2

/-- A client just connected. -/
def connected : Mux := ⟨connectedClient, ⟨∅, none⟩, fun _ => none, .reading⟩

/-- A clunk of the root as the first call. -/
def firstCall : Call := .new ⟨1, some 1, .clunk 1 1⟩ none

/-- The client with the tag of the clunk taken. -/
def claimed : Mux := { connected with protocol := connectedClient.claim 1 }.set 0 firstCall

/-- The client with the sender of the clunk in place. -/
def enlisted : Mux :=
  { claimed with responses := ⟨(∅ : ExtTreeMap Tag Nat).insert 1 0, none⟩ }.set 0
    { firstCall with phase := .registered }

/-- The clunk, sent. -/
def sentCall : Call := { firstCall with phase := .waiting, journey := .sent }

/-- The client that waits for its first reply. -/
def sending : Mux := enlisted.set 0 sentCall

private theorem connected_live : connectedClient.pending.live = ∅ := by decide +kernel

private theorem connected_targets : connectedClient.flushTargets = ∅ := by decide +kernel

private theorem connected_alloc :
    allocTag.exec connectedClient = (.ok 1, connectedClient.claim 1) := by
  have hnx : connectedClient.nextTag = 1 := by decide +kernel
  have hf : connectedClient.Free connectedClient.nextTag := by
    exact ⟨by decide, rfl⟩
  rw [allocTag_next hf, hnx]

theorem run_sending : clearing.Run [.advance, .advance, .allocate] sending := by
  have hc : connected.Clear := by
    intro tag hu
    rcases hu with ⟨i, call, hi, _⟩ | ⟨other, ho⟩ | ⟨i, call, hi, _⟩
    · cases hi
    · cases ho
    · cases hi
  have hs : Step connected .allocate claimed :=
    .submits 0 (.clunk 1) rfl (clunk_exec 1 connected_alloc)
  have hr : Step claimed .advance enlisted := .registers (set_self ..) rfl rfl
  have hw : Step enlisted .advance sending := .turns (set_self ..) (.writes rfl)
  have hid (s : Mux) (h : Action.advance = .allocate) : s.Clear := by cases h
  have hst : clearing.initial connected := ⟨connected_live, connected_targets, rfl, rfl, rfl⟩
  exact .next (.next (.next (.start hst) ⟨fun _ => hc, hs⟩) ⟨hid _, hr⟩)
    ⟨hid _, hw⟩

theorem responses_delivered_sending : (∃ r, sentCall.inbox.head? = some (.response 0 r)) ∨
    (sentCall.phase = .waiting ∧ sentCall.inbox = [] ∧
      sending.responses.waiters[(1 : Tag)]? = some 0 ∧ sending.reader ≠ .stopped ∧
      (sentCall.journey = .sent ∨ (∃ m, sentCall.journey = .answered m) ∨
        ∃ r, sending.reader = .holding 0 r)) :=
  (responses_delivered run_sending (set_self ..)).2.1 nofun rfl rfl ⟨rfl, nofun⟩

/-! ### A scan that comes round -/

/-- A walk with one name more than a frame takes. -/
def longWalk : Request := .walk 1 (List.replicate 17 [])

private theorem longWalk_exec {c : Client} {tag : Tag}
    (ha : allocTag.exec c = (.ok tag, c.claim tag)) : longWalk.build.exec c =
      (.ok ⟨tag, some c.nextFid, .walk tag 1 c.nextFid (List.replicate 17 [])⟩,
        { c.claim tag with nextFid := if c.nextFid + 1 = NOFID then 1 else c.nextFid + 1 }) := by
  change (allocTag >>= _).exec c = _
  rw [Checked.exec_bind, ha]
  rfl

/-- The first call still waits; `n` calls were made, and `next` is the next tag. -/
structure Lingers (s : Mux) (n : Nat) (next : Tag) : Prop where
  first : s.calls 0 = some sentCall
  some_call : 0 < n
  fresh : ∀ i, n ≤ i → s.calls i = none
  next_eq : s.protocol.nextTag = next
  live_eq : s.protocol.pending.live = (connectedClient.claim 1).pending.live
  targets_eq : s.protocol.flushTargets = ∅
  responses_eq : s.responses = sending.responses
  reader_eq : s.reader = .reading

private theorem linger_live (tag : Tag) : (connectedClient.claim 1).pending.live[tag]? =
    if 1 = tag then some ⟨1, connectedClient.pending.nextGeneration⟩ else none := by
  unfold claim
  rw [get_insert, connected_live]
  rfl

/-- A call that does not fit a frame moves the scan on and leaves no trace. -/
theorem run_round {n : Nat} {next tag : Tag} (run : multiplexed.Run history s)
    (h : Lingers s n next) (ha : allocTag.exec s.protocol = (.ok tag, s.protocol.claim tag))
    (hf : s.protocol.Free tag) :
    ∃ history s', multiplexed.Run history s' ∧ Lingers s' (n + 1) (tag + 1) := by
  have hs := Step.submits n longWalk (h.fresh n (Nat.le_refl n)) (longWalk_exec ha)
  have hl (newfid : Fid) (msize : UInt32) :
      encodeTMessageChecked (.walk tag 1 newfid (.replicate 17 [])) msize =
        .error (.fromStatic "name too long") := rfl
  have hg (protocol : Client) : Step
      ({ s with protocol := protocol }.set n (.new ⟨tag, some s.protocol.nextFid,
        .walk tag 1 s.protocol.nextFid (.replicate 17 [])⟩ none)) .advance _ :=
    .givesUp (set_self ..) (.overflows rfl (hl _ _))
  have hz : 0 ≠ n := Nat.ne_of_lt h.some_call
  refine ⟨_, _, .next (.next run hs) (hg _), ?_⟩
  constructor
  · rw [set_ne _ _ hz]
    rw [set_ne _ _ hz]
    exact h.first
  · exact Nat.succ_pos n
  · intro i hi
    have hne : i ≠ n := by omega
    rw [set_ne _ _ hne]
    rw [set_ne _ _ hne]
    exact h.fresh i (by omega)
  · exact abandon_nextTag _ tag
  · change (Client.abandon _ tag).pending.live = _
    rw [abandon_live, if_neg hf.1, ← h.live_eq]
    exact erase_insert_self hf.2
  · change (Client.abandon _ tag).flushTargets = _
    rw [abandon_targets, if_neg hf.1]
    change s.protocol.flushTargets.erase tag = ∅
    rw [h.targets_eq]
    exact erase_eq_self rfl
  · exact h.responses_eq
  · exact h.reader_eq

/-- One round for each tag behind the first call. -/
theorem run_around (n : Nat) (hn : n ≤ 65533) :
    ∃ history s, multiplexed.Run history s ∧ Lingers s (1 + n) (2 + UInt16.ofNat n) := by
  induction n with
  | zero =>
    refine ⟨_, sending, run_sending.of_restrict, ?_⟩
    exact {
      first := set_self ..
      some_call := by omega
      fresh := fun i hi => by
        have hne : i ≠ 0 := by omega
        unfold sending enlisted claimed
        rw [set_ne _ _ hne, set_ne _ _ hne]
        exact set_ne _ _ hne
      next_eq := rfl
      live_eq := rfl
      targets_eq := connected_targets
      responses_eq := rfl
      reader_eq := rfl }
  | succ n ih =>
    obtain ⟨history, s, hr, h⟩ := ih (by omega)
    have hnt : (2 + UInt16.ofNat n : Tag).toNat = 2 + n := by
      rw [UInt16.toNat_add, UInt16.toNat_ofNat_of_lt' (Nat.lt_of_lt_of_le hn (by decide))]
      change (2 + n) % 65536 = 2 + n
      omega
    have hf : s.protocol.Free s.protocol.nextTag := by
      unfold Free
      rw [h.live_eq, h.next_eq, linger_live]
      constructor
      · intro heq
        rw [heq] at hnt
        change 65535 = 2 + n at hnt
        omega
      · rw [if_neg]
        intro heq
        rw [← heq] at hnt
        change 1 = 2 + n at hnt
        omega
    have hrn := run_round hr h (allocTag_next hf) hf
    rw [h.next_eq, UInt16.add_assoc, Nat.add_assoc] at hrn
    rw [UInt16.ofNat_add]
    exact hrn

/-- The reply to the first call. -/
def firstReply : ClientResponse := .completion 1 .clunk

/-- The first call, answered. -/
def answeredCall : Call := { sentCall with journey := .answered (.clunk 1) }

/-- The first call, its answer read. -/
def takenCall : Call := { answeredCall with journey := .taken (.clunk 1) }

/-- A second call, turned away with the tag of the first. -/
def secondCall : Call :=
  { firstCall with phase := .refused (.fromStatic s!"duplicate waiter for tag {(1 : Tag)}") }

/-- The server has answered the first call. -/
def answering (s : Mux) : Mux := s.set 0 answeredCall

/-- The reader holds the answer, and tag 1 is free. -/
def holdingReply (s : Mux) : Mux :=
  { answering s with
    protocol := s.protocol.retire 1
    reader := .holding 0 firstReply }.set 0 takenCall

/-- A second call has taken tag 1. -/
def reclaiming (s : Mux) (n : Nat) : Mux :=
  { holdingReply s with protocol := (s.protocol.retire 1).claim 1 }.set n firstCall

/-- Its sender has replaced that of the first call. -/
def replaced (s : Mux) (n : Nat) : Mux :=
  { reclaiming s n with responses := ⟨s.responses.waiters.insert 1 n, none⟩ }.set n secondCall

/-- The reader has used it for the reply to the first call. -/
def misdirected (s : Mux) (n : Nat) : Mux :=
  { replaced s n with reader := .reading }.take firstReply.tag (.response 0 firstReply)

private theorem run_misdirected {n : Nat} (run : multiplexed.Run history s) (h : Lingers s n 1) :
    ∃ history, multiplexed.Run history (misdirected s n) := by
  have hn : n ≠ 0 := Nat.ne_of_gt h.some_call
  have hl : s.protocol.pending.live[(1 : Tag)]? =
      some ⟨1, connectedClient.pending.nextGeneration⟩ := by
    rw [h.live_eq, linger_live]
    rfl
  have han : Step s .advance (answering s) := .turns h.first (.answers rfl rfl)
  have hrc : Step (answering s) .advance (holdingReply s) :=
    .receives h.reader_eq (set_self ..) rfl (receive_clunk (by decide) hl)
  have ha : allocTag.exec (s.protocol.retire 1) = (.ok 1, (s.protocol.retire 1).claim 1) := by
    have hnx : (s.protocol.retire 1).nextTag = 1 := h.next_eq
    have hf : (s.protocol.retire 1).Free (s.protocol.retire 1).nextTag := by
      rw [hnx]
      refine ⟨by decide, ?_⟩
      unfold retire
      rw [get_erase, if_pos rfl]
    rw [allocTag_next hf, hnx]
  have hu : (holdingReply s).calls n = none := by
    unfold holdingReply
    rw [set_ne _ _ hn]
    unfold answering
    rw [set_ne _ _ hn]
    exact h.fresh n (Nat.le_refl n)
  have hs : Step (holdingReply s) .allocate (reclaiming s n) :=
    .submits n (.clunk 1) hu (clunk_exec 1 ha)
  have hr : (reclaiming s n).responses.register 1 n =
      (.error (.fromStatic s!"duplicate waiter for tag {(1 : Tag)}"),
        ⟨s.responses.waiters.insert 1 n, none⟩) := by
    change s.responses.register 1 n = _
    rw [h.responses_eq]
    unfold ResponseState.register
    rfl
  have hrf : Step (reclaiming s n) .advance (replaced s n) :=
    .unregistered (set_self ..) rfl hr
  have hh : Step (replaced s n) .advance (misdirected s n) := by
    exact .handsOver rfl
  exact ⟨_, .next (.next (.next (.next (.next run han) hrc) hs) hrf) hh⟩

/-- A second call takes tag 1 between the two locks of the reader. Its sender replaces that of
the first call and is used for the reply to the first call, which waits on without a sender. -/
theorem response_misdirected : ∃ (history : List Action) (s : Mux) (call other : Call) (n : Nat),
    multiplexed.Run history s ∧ s.calls 0 = some call ∧ call.journey = .taken (.clunk 1) ∧
      call.phase = .waiting ∧ call.timedOut = false ∧ call.flushed = false ∧
      Up s.responses s.reader ∧ call.inbox = [] ∧ s.reader = .reading ∧
      (∀ tag : Tag, s.responses.waiters[tag]? ≠ some 0) ∧
      n ≠ 0 ∧ s.calls n = some other ∧ .response 0 firstReply ∈ other.inbox := by
  obtain ⟨_, s₀, hr₀, h₀⟩ := run_around 65533 (Nat.le_refl _)
  have hw : s₀.protocol.nextTag = NOTAG := h₀.next_eq.trans (by decide)
  have hz : s₀.protocol.Free 0 := by
    unfold Free
    rw [h₀.live_eq, linger_live]
    decide
  obtain ⟨_, s, hr, h⟩ := run_round hr₀ h₀ (allocTag_wrap hw hz) hz
  generalize 1 + 65533 + 1 = n at h
  have hn : n ≠ 0 := Nat.ne_of_gt h.some_call
  obtain ⟨_, hm⟩ := run_misdirected hr h
  have hs : (replaced s n).responses.waiters[firstReply.tag]? = some n := by
    change (s.responses.waiters.insert 1 n)[(1 : Tag)]? = some n
    rw [get_insert, if_pos rfl]
  refine ⟨_, misdirected s n, takenCall, secondCall.push (.response 0 firstReply), n,
    hm, ?_, rfl, rfl, rfl, rfl, ⟨rfl, nofun⟩, rfl, rfl, ?_, hn, ?_, ?_⟩
  · unfold misdirected
    rw [calls_take, if_neg]
    · change (replaced s n).calls 0 = _
      unfold replaced
      rw [set_ne _ _ hn.symm]
      change (reclaiming s n).calls 0 = _
      unfold reclaiming
      rw [set_ne _ _ hn.symm]
      change (holdingReply s).calls 0 = _
      exact set_self ..
    · intro heq
      exact hn (Option.some.inj (hs.symm.trans heq))
  · intro tag
    change ((s.responses.waiters.insert 1 n).erase 1)[tag]? ≠ some 0
    rw [h.responses_eq, get_erase]
    split
    · nofun
    · next hne =>
      change ((((∅ : ExtTreeMap Tag Nat).insert 1 0).insert 1 n)[tag]?) ≠ some 0
      rw [get_insert, if_neg hne, get_insert, if_neg hne]
      nofun
  · unfold misdirected
    rw [calls_take]
    dsimp only
    rw [if_pos hs]
    unfold replaced
    rw [set_self]
    rfl
  · exact List.mem_append_right _ List.mem_cons_self

end R9P.Multiplex
