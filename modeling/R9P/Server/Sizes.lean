import R9P.Server.Dialect
import R9P.Wire.Layout

/-!
# Replies fit into a message

Library `Server`. A reply that does not carry a text, a stat or referrals of the backend is encoded
in at most the message size of its session, and so is a write of as many bytes as the reply to an
open announces. The count of a read is clamped when it is admitted, so this needs the generations
to be told apart: a read of an earlier session may ask for more than the present one can send.
-/

namespace R9P.Wire
open Base
open List (length_append)

theorem toNat_saturatingSub (a b : UInt32) : (saturatingSub a b).toNat = a.toNat - b.toNat := by
  unfold saturatingSub
  split
  · next h =>
    have hle := UInt32.le_iff_toNat_le.mp h
    rw [UInt32.toNat_zero]
    omega
  · next h =>
    rw [UInt32.not_le] at h
    exact UInt32.toNat_sub_of_le _ _ (UInt32.le_of_lt h)

theorem toNat_min_le_right (a b : UInt32) : (min a b).toNat ≤ b.toNat := by
  show (if a ≤ b then a else b).toNat ≤ b.toNat
  split
  · next h => exact UInt32.le_iff_toNat_le.mp h
  · exact le_rfl

/-- A chunk of a directory is no longer than what was asked for. -/
theorem length_dirreadLoop {offset : UInt64} {limit : Nat} {stats : List Stat} {out data : Bytes}
    {position : UInt64} (ho : out.length ≤ limit)
    (h : dirreadLoop offset limit stats out position = .ok data) : data.length ≤ limit := by
  induction stats generalizing out position with
  | nil =>
    cases h
    exact ho
  | cons stat stats ih =>
    rw [dirreadLoop, bind_ok] at h
    obtain ⟨encoded, -, h⟩ := h
    dsimp only at h
    split at h
    · exact ih ho h
    · split at h
      · cases h
        exact ho
      · split at h
        · cases h
          exact ho
        · next hr =>
          refine ih ?_ h
          rw [length_append]
          omega

theorem length_frameBytes (messageType : UInt8) (tag : Tag) (body : Bytes) :
    (frameBytes messageType tag body).length = 7 + body.length := by
  unfold frameBytes u16Bytes
  rw [length_append, length_leBytes, List.length_cons, length_append, length_leBytes]
  omega

theorem Qid.length_bytes (q : Qid) : q.bytes.length = 13 := by
  unfold Qid.bytes u32Bytes u64Bytes
  rw [List.length_cons, length_append, length_leBytes, length_leBytes]

theorem length_flatMap_qids (qids : List Qid) :
    (qids.flatMap Qid.bytes).length = 13 * qids.length := by
  induction qids with
  | nil => rfl
  | cons q qids ih =>
    rw [List.flatMap_cons, length_append, Qid.length_bytes, ih, List.length_cons]
    omega

/-- A reply whose variable part is within its bounds: a known version, no more qids than a walk
has names, and no more data than the message size has room for. -/
def RMessage.Bounded (msize : UInt32) : RMessage → Prop
  | version _ _ v => v.length ≤ 8
  | walk _ qids => qids.length ≤ MAXWELEM
  | read _ data => data.length + RREAD_HEADER_SIZE.toNat ≤ msize.toNat
  | error .. | stat .. | referrals .. => False
  | auth .. | attach .. | flush .. | .open .. | create .. | write .. | clunk .. | remove ..
  | wstat .. | renameAt .. => True

variable {m : RMessage}

theorem RMessage.Bounded.fits {msize : UInt32} (hms : MIN_MSIZE ≤ msize)
    (h : m.Bounded msize) : m.Fits ∧ 7 + m.body.length ≤ msize.toNat := by
  have hm : 256 ≤ msize.toNat := UInt32.le_iff_toNat_le.mp hms
  have hmx := msize.toNat_lt
  cases m with
  | version tag size v =>
    have hv : v.length ≤ 8 := h
    refine ⟨show v.length < 2 ^ 16 by omega, ?_⟩
    show 7 + (u32Bytes size ++ stringBytes v).length ≤ _
    unfold u32Bytes stringBytes
    rw [length_append, length_append, length_leBytes, length_leBytes]
    omega
  | auth tag q | attach tag q =>
    refine ⟨trivial, ?_⟩
    show 7 + q.bytes.length ≤ _
    rw [Qid.length_bytes]
    omega
  | walk tag qids =>
    have hq : qids.length ≤ 16 := h
    refine ⟨h, ?_⟩
    show 7 + (leBytes 2 qids.length ++ qids.flatMap Qid.bytes).length ≤ _
    rw [length_append, length_leBytes, length_flatMap_qids]
    omega
  | «open» tag q iounit | create tag q iounit =>
    refine ⟨trivial, ?_⟩
    show 7 + (q.bytes ++ u32Bytes iounit).length ≤ _
    unfold u32Bytes
    rw [length_append, Qid.length_bytes, length_leBytes]
    omega
  | read tag data =>
    have hd : data.length + 11 ≤ msize.toNat := h
    refine ⟨show data.length < 2 ^ 32 by omega, ?_⟩
    show 7 + (leBytes 4 data.length ++ data).length ≤ _
    rw [length_append, length_leBytes]
    omega
  | write tag count =>
    refine ⟨trivial, ?_⟩
    show 7 + (u32Bytes count).length ≤ _
    unfold u32Bytes
    rw [length_leBytes]
    omega
  | flush tag | clunk tag | remove tag | wstat tag | renameAt tag =>
    exact ⟨trivial, show 7 + 0 ≤ _ by omega⟩
  | error tag ename | stat tag s | referrals tag rs => exact h.elim

/-- A bounded reply is encoded within the message size. -/
theorem RMessage.Bounded.encodes {msize : UInt32} (hms : MIN_MSIZE ≤ msize)
    (h : m.Bounded msize) :
    ∃ frame, encodeRMessage m = .ok frame ∧ frame.length ≤ msize.toNat := by
  obtain ⟨hf, hl⟩ := h.fits hms
  have hmx := msize.toNat_lt
  refine ⟨_, (encodeRMessage_ok_iff m _).mpr ⟨⟨hf, by omega⟩, rfl⟩, ?_⟩
  rw [length_frameBytes]
  exact hl

/-- A write of no more than an I/O unit is encoded within the message size. -/
theorem encodes_write {msize : UInt32} (hms : MIN_MSIZE ≤ msize) (tag : Tag) (fid : Fid)
    (offset : UInt64) {data : Bytes} (h : data.length ≤ (maxIounit msize).toNat) :
    ∃ frame, encodeTMessage (.write tag fid offset data) = .ok frame ∧
      frame.length ≤ msize.toNat := by
  have hm : 256 ≤ msize.toNat := UInt32.le_iff_toNat_le.mp hms
  have hmx := msize.toNat_lt
  have hd : data.length ≤ msize.toNat - 24 := by
    rwa [show (maxIounit msize).toNat = msize.toNat - 24 from toNat_saturatingSub msize 24] at h
  have hb : (TMessage.write tag fid offset data).body.length = 16 + data.length := by
    show (u32Bytes fid ++ (u64Bytes offset ++ (leBytes 4 data.length ++ data))).length = _
    unfold u32Bytes u64Bytes
    rw [length_append, length_append, length_append, length_leBytes,
      length_leBytes, length_leBytes]
    omega
  refine ⟨_, (encodeTMessage_ok_iff _ _).mpr ⟨⟨show data.length < 2 ^ 32 by omega, ?_⟩, rfl⟩, ?_⟩
  · omega
  · rw [length_frameBytes, hb]
    omega

/-- The replies that carry a text, a stat or referrals of the backend. -/
def RMessage.isOpenEnded : RMessage → Bool
  | error .. | stat .. | referrals .. => true
  | _ => false

/-- The size of the writes that a reply tells its client to make. -/
def RMessage.announced (msize : UInt32) : RMessage → Option UInt32
  | «open» _ _ iounit | create _ _ iounit => some (if iounit = 0 then maxIounit msize else iounit)
  | _ => none

theorem RMessage.not_isOpenEnded_of_announced {msize size : UInt32}
    (h : m.announced msize = some size) : m.isOpenEnded = false := by
  cases m with
  | error tag ename | stat tag stat | referrals tag referrals => cases h
  | _ => rfl

/-- What a message size lets a server send: bounded replies that announce no more than an I/O
unit. -/
def RMessage.Sendable (msize : UInt32) (m : RMessage) : Prop :=
  (m.isOpenEnded = false → MIN_MSIZE ≤ msize ∧ m.Bounded msize) ∧
    ∀ size, m.announced msize = some size → size ≤ maxIounit msize

end R9P.Wire

namespace R9P.Server
open Base Wire

/-- The reply that a call sends. -/
def Call.reply : Call → Option RMessage
  | admitted _ (.reply message) => some message
  | admitted _ (.flush message _) => some message
  | admitted _ (.dispatch _) => none
  | completed _ _ reply => reply

variable {config : ServerConfig} {history : List Call} {w w' : World} {s s' : Session}
  {m : TMessage} {event : ServerEvent} {r : ServerRequest} {reply : RMessage}

/-! ### One call -/

/-- A request whose reply is bounded: a read of no more than fits, a walk of few names. -/
def ServerRequestKind.Bounded (msize : UInt32) : ServerRequestKind → Prop
  | read _ _ _ count => count.toNat + RREAD_HEADER_SIZE.toNat ≤ msize.toNat
  | walk _ _ _ wnames => wnames.length ≤ MAXWELEM
  | _ => True

variable {tag : Tag} {kind : ServerRequestKind} {result : Result ServerCompletion}
  {c : ServerCompletion}

theorem Answers.bounded {variant : Variant} {msize : UInt32}
    (h : Answers variant msize tag kind c reply) (hk : kind.Bounded msize)
    (hr : reply.isOpenEnded = false) :
    reply.Bounded msize := by
  unfold Answers at h
  split at h
  case h_3 fid newfid start wnames qids =>
    obtain ⟨hq, -, -, rfl⟩ := h
    exact le_trans hq hk
  case h_6 fid qid offset count bytes =>
    have hc : count.toNat + 11 ≤ msize.toNat := hk
    rw [h]
    show (bytes.take count.toNat).length + 11 ≤ msize.toNat
    rw [List.length_take]
    omega
  case h_7 fid qid offset count stats =>
    obtain ⟨-, data, hd, rfl⟩ := h
    have hc : count.toNat + 11 ≤ msize.toNat := hk
    have hl := length_dirreadLoop (Nat.zero_le _) hd
    show data.length + 11 ≤ msize.toNat
    omega
  all_goals first
    | exact h.elim
    | (rw [h]; trivial)
    | (rw [h.2]; trivial)
    | (rw [h.2.2]; trivial)
    | (rw [h.2] at hr; cases hr)

/-- An announced size is no more than an I/O unit. -/
theorem announced_clampIounit (msize iounit : UInt32) :
    ((if clampIounit msize iounit = 0 then maxIounit msize else clampIounit msize iounit) : UInt32)
      ≤ maxIounit msize := by
  unfold clampIounit
  by_cases hi : iounit = 0
  · rw [if_pos hi, if_pos rfl]
    exact UInt32.le_refl _
  · rw [if_neg hi]
    split
    · exact UInt32.le_refl _
    · exact UInt32.le_iff_toNat_le.mpr (toNat_min_le_right iounit (maxIounit msize))

theorem Answers.announced {variant : Variant} {msize : UInt32}
    (h : Answers variant msize tag kind c reply) {size : UInt32}
    (hs : reply.announced msize = some size) : size ≤ maxIounit msize := by
  unfold Answers at h
  split at h
  case h_4 opened =>
    rw [h.2] at hs
    cases hs
    exact announced_clampIounit msize opened.iounit
  case h_5 opened =>
    rw [h.2] at hs
    cases hs
    exact announced_clampIounit msize opened.iounit
  case h_3 =>
    rw [h.2.2.2] at hs
    cases hs
  case h_7 =>
    obtain ⟨-, data, -, rfl⟩ := h
    cases hs
  all_goals first
    | exact h.elim
    | (rw [h] at hs; cases hs)
    | (rw [h.2] at hs; cases hs)
    | (rw [h.2.2] at hs; cases hs)

/-- The request that a message becomes is bounded. -/
theorem bounded_of_permits (h : s.Permits kind m)
    (hms : MIN_MSIZE ≤ s.msize) : kind.Bounded s.msize := by
  cases m with
  | walk tag fid newfid wnames =>
    obtain ⟨st, -, hn, -, -, rfl⟩ := h
    unfold validateWalkNames at hn
    split at hn
    · cases hn
    · next hl => exact Nat.not_lt.mp hl
  | read tag fid offset count =>
    obtain ⟨st, -, -, rfl⟩ := h
    have hm : 256 ≤ s.msize.toNat := UInt32.le_iff_toNat_le.mp hms
    have hc := toNat_min_le_right count (saturatingSub s.msize RREAD_HEADER_SIZE)
    rw [toNat_saturatingSub] at hc
    show (clampReadCount s.msize count).toNat + 11 ≤ s.msize.toNat
    have he : RREAD_HEADER_SIZE.toNat = 11 := rfl
    unfold clampReadCount
    omega
  | version tag msize version | flush tag oldtag => exact h.elim
  | auth tag afid uname aname | attach tag fid afid uname aname =>
    obtain ⟨-, -, rfl⟩ := h
    trivial
  | «open» tag fid mode | create tag fid name perm mode =>
    obtain ⟨st, -, -, rfl⟩ := h
    trivial
  | write tag fid offset data =>
    obtain ⟨st, -, -, -, rfl⟩ := h
    trivial
  | clunk tag fid | remove tag fid | stat tag fid =>
    obtain ⟨st, -, rfl⟩ := h
    trivial
  | wstat tag fid stat | referrals tag fid =>
    obtain ⟨st, variant, -, -, -, rfl⟩ := h
    trivial
  | renameAt tag olddirfid oldname newdirfid newname =>
    obtain ⟨olddir, newdir, variant, -, -, -, -, -, -, -, rfl⟩ := h
    trivial

/-! ### Runs -/

/-- A version request leaves no message size below the least one. -/
theorem msize_resetForVersion (hmx : MIN_MSIZE ≤ s.config.maxMsize) (msize : UInt32)
    (version : Bytes) : MIN_MSIZE ≤ (s.resetForVersion msize version).2.msize := by
  unfold Session.resetForVersion
  dsimp only
  split
  · exact UInt32.le_refl _
  · next hr =>
    split
    · show MIN_MSIZE ≤ (if msize ≤ s.config.maxMsize then msize else s.config.maxMsize)
      split
      · exact UInt32.not_lt.mp hr
      · exact hmx
    · exact UInt32.le_refl _

/-- The reply to a version request is an error or names a known version. -/
theorem versionReply_cases (msize : UInt32) (version : Bytes)
    (h : (versionReply tag (s.resetForVersion msize version)).1 = .reply reply) :
    (∃ e, reply = errorReply tag e) ∨
    ∃ size name, reply = .version tag size name ∧ name.length ≤ 8 := by
  unfold Session.resetForVersion at h
  dsimp only at h
  split at h
  · cases h
    exact .inl ⟨_, rfl⟩
  · split at h
    · next accepted _ =>
      cases h
      cases accepted with
      | plain => exact .inr ⟨_, _, rfl, show (utf8 "9P2000").length ≤ 8 by decide⟩
      | r => exact .inr ⟨_, _, rfl, show (utf8 "9P2000.R").length ≤ 8 by decide⟩
    · cases h
      exact .inr ⟨_, _, rfl, show (utf8 "unknown").length ≤ 8 by decide⟩

/-- An admission keeps the message size, or empties the session. -/
theorem Session.Admission.msize_eq (h : s.Admission m event s')
    (hm : m.messageType ≠ TVERSION) : s'.msize = s.msize ∧ s'.negotiated = s.negotiated := by
  cases h with
  | version message reset answer => exact absurd rfl hm
  | rejected e uses | refused e begins => exact ⟨rfl, rfl⟩
  | flushed begins old found =>
    unfold cancel
    split
    all_goals exact ⟨rfl, rfl⟩
  | dispatched begins permits acquires =>
    rw [acquires.frame]
    exact ⟨rfl, rfl⟩

theorem Session.Completion.msize_eq {answer : Option RMessage}
    (h : s.Completion r result answer s') :
    s'.msize = s.msize ∧ s'.negotiated = s.negotiated := by
  cases h with
  | stale dead | failed e live cause => exact ⟨rfl, rfl⟩
  | answered live negotiated answers bindable =>
    unfold bindOpt
    split
    all_goals exact ⟨rfl, rfl⟩

/-- A session with a live request has negotiated a version. -/
theorem Session.WF.negotiated_of_isLive {key : RequestKey} (hs : s.WF) (hl : s.IsLive key) :
    s.negotiated = true := by
  cases hng : s.negotiated with
  | true => rfl
  | false =>
    rw [Session.IsLive, (hs.idle hng).2.2] at hl
    cases hl

/-- The message size is no less than the least one once a version is negotiated, and the live
requests were clamped to it. -/
structure World.Clamped (w : World) : Prop where
  least : w.session.negotiated = true → MIN_MSIZE ≤ w.session.msize
  bounded : ∀ r ∈ w.issued, w.session.IsLive r.key → r.kind.Bounded w.session.msize

theorem World.Clamped.onAdmit (h : w.Clamped) (ht : w.Tracked) (hs : w.session.WF)
    (hmx : MIN_MSIZE ≤ w.session.config.maxMsize) (m : TMessage) : (w.onAdmit m).Clamped := by
  have ha := hs.admission m
  by_cases hm : m.messageType = TVERSION
  · cases m with
    | version tag msize version =>
      rw [onAdmit_version]
      refine ⟨fun _ => msize_resetForVersion hmx msize version, fun r hr hl => ?_⟩
      obtain ⟨_, _, _, _, heq⟩ := Session.reset_frame
        (rfl : (w.session.resetForVersion msize version).2 = _)
      rw [heq] at hl
      cases hl
    | _ => cases hm
  · obtain ⟨hms, hn⟩ := ha.msize_eq hm
    constructor
    · intro hng
      show MIN_MSIZE ≤ (admitMessage w.session m).2.msize
      rw [hms]
      exact h.least (hn ▸ hng)
    · intro r hr hl
      show r.kind.Bounded (admitMessage w.session m).2.msize
      rw [hms]
      rcases mem_issued_onAdmit hr with hnw | ho
      · rw [hnw] at ha
        generalize (admitMessage w.session m).2 = s' at ha
        cases ha with
        | dispatched begins permits acquires =>
          exact bounded_of_permits permits (h.least begins.negotiated)
      · apply h.bounded r ho
        by_contra dead
        exact dead_step ht hs (.admits m) (ht.older r ho) dead hl

theorem World.Clamped.onComplete (h : w.Clamped) (r : ServerRequest)
    (result : Result ServerCompletion) : (w.onComplete r result).Clamped := by
  have hc := w.session.completion r result
  obtain ⟨hms, hn⟩ := hc.msize_eq
  constructor
  · intro hng
    show MIN_MSIZE ≤ (complete w.session r result).2.msize
    rw [hms]
    exact h.least (hn ▸ hng)
  · intro r' hr' hl
    show r'.kind.Bounded (complete w.session r result).2.msize
    rw [hms]
    exact h.bounded r' hr' (hc.live_before hl)

/-- While the generations last, every live request was clamped to the present message size. -/
theorem World.clamped (hmx : MIN_MSIZE ≤ config.maxMsize) (run : (server config).Run history w)
    (hg : w.generations < 2 ^ 64) : w.Clamped := by
  revert hg
  apply run.invariant (I := fun _ w => w.generations < 2 ^ 64 → w.Clamped)
  · intro w hw _
    rw [hw]
    exact ⟨nofun, nofun⟩
  · intro history w call w' hrn ih hst hg
    have hl := Nat.lt_of_le_of_lt (generations_mono hst) hg
    have hb := ih hl
    have hsd := sound hrn
    cases hst with
    | admits m =>
      exact hb.onAdmit (tracked hrn hl) hsd.wf (hsd.config_eq ▸ hmx) m
    | completes r result issued => exact hb.onComplete r result

theorem World.Clamped.sendable_admitted (h : w.Clamped)
    (hmx : MIN_MSIZE ≤ w.session.config.maxMsize) (ha : w.session.Admission m event s')
    (hr : (Call.admitted m event).reply = some reply) : reply.Sendable s'.msize := by
  cases ha with
  | version message reset answer =>
    cases hr
    rcases versionReply_cases _ _ answer with ⟨e, rfl⟩ | ⟨size, name, rfl, hn⟩
    · exact ⟨nofun, nofun⟩
    · exact ⟨fun _ => ⟨reset ▸ msize_resetForVersion hmx _ _, hn⟩, nofun⟩
  | rejected e uses | refused e begins =>
    cases hr
    exact ⟨nofun, nofun⟩
  | flushed begins old found =>
    cases hr
    have hms := (Session.Admission.flushed begins old found).msize_eq nofun
    exact ⟨fun _ => ⟨hms.1 ▸ h.least begins.negotiated, trivial⟩, nofun⟩
  | dispatched begins permits acquires => cases hr

theorem World.Clamped.sendable_completed (h : w.Clamped) (hs : w.session.WF) (issued : r ∈ w.issued)
    (hc : w.session.Completion r result (some reply) s') :
    reply.Sendable s'.msize := by
  rw [hc.msize_eq.1]
  cases hc with
  | failed e live cause => exact ⟨nofun, nofun⟩
  | answered live negotiated answers bindable =>
    exact ⟨fun hcl => ⟨h.least (hs.negotiated_of_isLive live),
      answers.bounded (h.bounded r issued live) hcl⟩, fun size => answers.announced⟩

/-- While the generations last, every reply but an error, a stat and referrals is encoded in no
more than the message size, and so is a write of the size announced by an open or a create. -/
theorem replies_fit (hmax : MIN_MSIZE ≤ config.maxMsize) {call : Call}
    (run : (server config).Run (call :: history) w) (hgen : w.generations < 2 ^ 64)
    (hreply : call.reply = some reply) :
    (reply.isOpenEnded = false →
      ∃ frame, encodeRMessage reply = .ok frame ∧ frame.length ≤ w.session.msize.toNat) ∧
    ∀ size, reply.announced w.session.msize = some size →
      ∀ (tag : Tag) (fid : Fid) (offset : UInt64) (data : Bytes), data.length ≤ size.toNat →
        ∃ frame, encodeTMessage (.write tag fid offset data) = .ok frame ∧
          frame.length ≤ w.session.msize.toNat := by
  cases run with
  | next hrn hst =>
    rename_i before
    have hl := Nat.lt_of_le_of_lt (World.generations_mono hst) hgen
    have hsd := World.sound hrn
    have hcm := World.clamped hmax hrn hl
    have hsn : reply.Sendable w.session.msize := by
      cases hst with
      | admits m =>
        exact hcm.sendable_admitted (hsd.config_eq ▸ hmax) (hsd.wf.admission m) hreply
      | completes r result issued =>
        have hc := before.session.completion r result
        rw [show (complete before.session r result).1 = some reply from hreply] at hc
        exact hcm.sendable_completed hsd.wf issued hc
    constructor
    · intro hcl
      exact (hsn.1 hcl).2.encodes (hsn.1 hcl).1
    · intro size hs tag fid offset data hd
      have hu := UInt32.le_iff_toNat_le.mp (hsn.2 size hs)
      have hls := (hsn.1 (RMessage.not_isOpenEnded_of_announced hs)).1
      exact encodes_write hls tag fid offset (le_trans hd hu)

theorem replies_fit_opened : rootOpen.session.msize = 8192 ∧
    ∀ (tag : Tag) (offset : UInt64) (data : Bytes), data.length ≤ 8168 →
      ∃ frame, encodeTMessage (.write tag 0 offset data) = .ok frame ∧ frame.length ≤ 8192 := by
  obtain ⟨_, _, _, _, hrn, hr⟩ := run_rootOpen
  have hms : rootOpen.session.msize = 8192 := by decide +kernel
  have hf := (replies_fit (by decide) hrn (by decide +kernel) hr).2
  rw [hms] at hf
  exact ⟨hms, fun tag offset data hd => hf 8168 rfl tag 0 offset data hd⟩

/-- At the end of the generations a read is under way when the peer turns to a smaller message
size, and its key goes to an attach. -/
def narrowed : World :=
  ((((((World.versioned .default 8192 (utf8 "9P2000") (2 ^ 64 - 1)).onAdmit
    (attachAt 9 0)).onComplete (lateAttach 9 0) (.ok (.attach ⟨0, 0, 1⟩))).onAdmit
    (.open 8 0 0)).onComplete ⟨⟨8, 0xffffffffffffffff⟩, .open 0 ⟨0, 0, 1⟩ 0⟩
      (.ok (.open ⟨⟨0, 0, 1⟩, 0⟩))).onAdmit
    (.read 1 0 0 1000)).onAdmit (.version NOTAG 256 (utf8 "9P2000")) |>.onAdmit (attachAt 1 5)

/-- The read that `narrowed` has under way. -/
def wideRead : ServerRequest := ⟨⟨1, 0xffffffffffffffff⟩, .read 0 ⟨0, 0, 1⟩ 0 1000⟩

/-- A counter at its end lets a read of an earlier session answer with more than the message
size. -/
theorem read_exceeds_at_the_end : (∃ history, (server .default).Run history narrowed) ∧
    wideRead ∈ narrowed.issued ∧ narrowed.session.msize = 256 ∧
    ∃ reply frame, (complete narrowed.session wideRead
        (.ok (.read (.bytes (List.replicate 1000 0))))).1 = some reply ∧
      reply.isOpenEnded = false ∧ encodeRMessage reply = .ok frame ∧ frame.length = 1011 := by
  obtain ⟨history, hrn⟩ := World.run_versioned .default NOTAG 8192 (utf8 "9P2000") (2 ^ 64 - 1)
  have hf : (encodeRMessage (.read 1 (.replicate 1000 0))).map List.length = .ok 1011 := by
    decide +kernel
  refine ⟨⟨_, .next (.next (.next (.next (.next (.next (.next hrn (.admits (attachAt 9 0)))
    (.completes (lateAttach 9 0) _ ?_)) (.admits (.open 8 0 0))) (.completes _ _ ?_))
    (.admits (.read 1 0 0 1000))) (.admits (.version NOTAG 256 (utf8 "9P2000"))))
    (.admits (attachAt 1 5))⟩, ?_, ?_, ?_⟩
  · decide +kernel
  · decide +kernel
  · decide +kernel
  · decide +kernel
  · cases he : encodeRMessage (.read 1 (.replicate 1000 0)) with
    | error e =>
      rw [he] at hf
      cases hf
    | ok frame =>
      rw [he] at hf
      refine ⟨_, frame, ?_, rfl, he, Except.ok.inj hf⟩
      decide +kernel

end R9P.Server
