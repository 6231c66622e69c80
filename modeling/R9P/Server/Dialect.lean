import R9P.Server.Access

/-!
# Dialect confinement

Library `Server`. While a session speaks plain 9P2000, no fid stands for a symbolic link, no
reply or directory entry shows one, and no request of the extended dialect is dispatched,
however often the peer has changed dialects before. A walk that stays in place carries the
qid of its fid across its completion, so this needs the generations to be told apart.
-/

namespace R9P.Server
open Base Wire

/-- A stat that shows no symbolic link. -/
def PlainStat (stat : Stat) : Prop :=
  stat.qid.isSymlink = false ∧ stat.mode &&& DMSYMLINK = 0

/-- A reply that shows no symbolic link. -/
def PlainReply : RMessage → Prop
  | .auth _ qid | .attach _ qid | .open _ qid _ | .create _ qid _ => qid.isSymlink = false
  | .walk _ qids => ∀ qid ∈ qids, qid.isSymlink = false
  | .stat _ stat => PlainStat stat
  | _ => True

/-- A request of the plain dialect. -/
def PlainRequest : ServerRequestKind → Prop
  | .renameAt .. | .referrals .. => False
  | _ => True

variable {config : ServerConfig} {history : List Call} {w w' : World} {call : Call} {f : Fid}

theorem validateQidVariant_plain {qid : Qid} :
    validateQidVariant .plain qid = .ok () ↔ qid.isSymlink = false := by
  unfold validateQidVariant
  simp [Variant.supportsSymlinks]

theorem validateStatVariant_plain {stat : Stat} :
    validateStatVariant .plain stat = .ok () ↔ PlainStat stat := by
  unfold validateStatVariant
  rw [check_ok, validateQidVariant_plain, guard_ok]
  simp [Variant.supportsSymlinks, PlainStat]

/-! ### Replies and requests -/

variable {msize : UInt32} {tag : Tag} {kind : ServerRequestKind} {reply : RMessage}
  {c : ServerCompletion}

/-- The reply to a completion shows what passed the checks. -/
theorem Answers.plain (h : Answers .plain msize tag kind c reply) :
    PlainReply reply := by
  unfold Answers at h
  split at h
  · rw [h.2.2]
    exact validateQidVariant_plain.mp h.2.1
  · rw [h.2]
    exact validateQidVariant_plain.mp h.1
  · obtain ⟨-, hqd, -, hr⟩ := h
    rw [hr]
    intro qid hq
    exact validateQidVariant_plain.mp (hqd qid hq)
  · rw [h.2]
    exact validateQidVariant_plain.mp h.1
  · rw [h.2]
    exact validateQidVariant_plain.mp h.1
  · rw [h]
    trivial
  · obtain ⟨-, data, -, hr⟩ := h
    rw [hr]
    trivial
  · rw [h.2]
    trivial
  · rw [h]
    trivial
  · rw [h]
    trivial
  · rw [h.2]
    exact validateStatVariant_plain.mp h.1
  · rw [h]
    trivial
  · rw [h]
    trivial
  · rw [h.2]
    trivial
  · exact h.elim

/-- A directory that is read back shows entries that passed the checks. -/
theorem Answers.plain_entries {t : Tag} {stats : List Stat} {data : Bytes}
    (h : Answers .plain msize tag kind (.read (.directory stats)) (.read t data)) :
    ∃ entries, decodeDirEntries data = .ok entries ∧ ∀ stat ∈ entries, PlainStat stat := by
  cases kind with
  | read fid qid offset count =>
    obtain ⟨hs, data', hd, hr⟩ := h
    cases hr
    obtain ⟨entries, he, hsb⟩ := decodeDirEntries_dirreadChunk hd
    refine ⟨entries, he, fun stat hst => ?_⟩
    exact validateStatVariant_plain.mp (hs stat (hsb.subset hst))
  | _ => exact h.elim

variable {s : Session} {r : ServerRequest} {result : Result ServerCompletion}

/-- What a plain session answers a completion with. -/
theorem complete_plain (plain : s.variant = some .plain)
    (h : (complete s r result).1 = some reply) :
    PlainReply reply ∧ ∀ stats tag data, result = .ok (.read (.directory stats)) →
      reply = .read tag data →
      ∃ entries, decodeDirEntries data = .ok entries ∧ ∀ stat ∈ entries, PlainStat stat := by
  have hc := s.completion r result
  rw [h] at hc
  generalize hr : some reply = answer at hc
  generalize (complete s r result).2 = s' at hc
  cases hc with
  | stale dead => cases hr
  | failed e live cause =>
    cases hr
    refine ⟨trivial, ?_⟩
    intro _ _ _ _ hrd
    cases hrd
  | answered live negotiated answers bindable =>
    cases hr
    rw [plain] at negotiated
    cases negotiated
    refine ⟨answers.plain, ?_⟩
    intro stats tag data hrs hrd
    cases hrs
    rw [hrd] at answers
    exact answers.plain_entries

/-- What a plain session makes of a message. -/
def PlainEvent : ServerEvent → Prop
  | .reply message | .flush message _ => PlainReply message
  | .dispatch r => PlainRequest r.kind

variable {m : TMessage}

theorem permits_plain (plain : s.variant = some .plain) (h : s.Permits kind m) :
    PlainRequest kind := by
  cases kind with
  | renameAt olddirfid olddirQid oldname newdirfid newdirQid newname =>
    cases m with
    | renameAt tag olddirfid' oldname' newdirfid' newname' =>
      obtain ⟨_, _, variant, -, -, hv, hs, -⟩ := h
      rw [plain] at hv
      cases hv
      cases hs
    | _ => simp [Session.Permits] at h
  | referrals fid qid =>
    cases m with
    | referrals tag fid' =>
      obtain ⟨_, variant, -, hv, hs, -⟩ := h
      rw [plain] at hv
      cases hv
      cases hs
    | _ => simp [Session.Permits] at h
  | _ => trivial

private theorem versionReply_plain {outcome : Result VersionNegotiation × Session}
    {message : RMessage} (h : (versionReply tag outcome).1 = .reply message) :
    PlainReply message := by
  obtain ⟨negotiation, s⟩ := outcome
  cases negotiation with
  | ok outcome =>
    cases h
    trivial
  | error e =>
    cases h
    trivial

theorem admission_plain (hs : s.WF) (plain : s.variant = some .plain)
    (m : TMessage) : PlainEvent (admitMessage s m).1 := by
  have ha := hs.admission m
  generalize (admitMessage s m).1 = event at ha ⊢
  generalize (admitMessage s m).2 = s' at ha
  cases ha with
  | version message reset answer => exact versionReply_plain answer
  | rejected e uses | refused e begins =>
    trivial
  | flushed begins old found => trivial
  | dispatched begins permits acquires => exact permits_plain plain permits

/-! ### Bound fids -/

/-- The qid that a walk in place carries to its completion. -/
def ServerRequestKind.start : ServerRequestKind → Option Qid
  | walk _ _ start _ => some start
  | _ => none

/-- Nothing in the session or in flight stands for a symbolic link. -/
structure World.Plain (w : World) : Prop where
  bound : ∀ (f : Fid) (st : FidState), w.session.fids[f]? = some st → st.qid.isSymlink = false
  walking : ∀ r ∈ w.issued, w.session.IsLive r.key → ∀ qid, r.kind.start = some qid →
    qid.isSymlink = false

-- What a completion binds passed the checks, or is where its walk started.
private theorem binding_plain {st : FidState}
    (ha : Answers .plain msize tag kind c reply)
    (hs : ∀ qid, kind.start = some qid → qid.isSymlink = false)
    (h : kind.binding reply = some (f, st)) : st.qid.isSymlink = false := by
  have hp := ha.plain
  unfold ServerRequestKind.binding at h
  split at h
  · cases h
    exact hp
  · cases h
    exact hp
  · split at h
    · split at h
      · cases h
      · cases h
        exact hs _ rfl
    · split at h
      · obtain ⟨qid, hq, hx⟩ := Option.map_eq_some_iff.mp h
        cases hx
        exact hp qid (List.mem_of_getLast? hq)
      · cases h
  · cases h
    exact hp
  · cases h
    exact hp
  · cases h

-- A fid after a call is unbound, as it was up to its offset, or as the call bound it.
private theorem effect_cases {before : Option FidState} {st : FidState}
    (h : call.effect f before = some st) :
    (∃ st', before = some st' ∧ st.qid = st'.qid) ∨ call.binding = some (f, st) := by
  unfold Call.effect at h
  split at h
  · cases h
  · split at h
    · split at h
      · obtain ⟨st', hbf, hst⟩ := Option.map_eq_some_iff.mp h
        rw [← hst]
        exact .inl ⟨st', hbf, rfl⟩
      · exact .inl ⟨st, h, rfl⟩
    · split at h
      · next g st' hb =>
        split at h
        · next hg =>
          rw [hb, hg, Option.some.inj h]
          exact .inr rfl
        · exact .inl ⟨st, h, rfl⟩
      · exact .inl ⟨st, h, rfl⟩

/-- An admission keeps the dialect, or it empties the session. -/
theorem Session.Admission.variant_eq {s' : Session} {event : ServerEvent}
    (h : s.Admission m event s') :
    s'.variant = s.variant ∨ s'.fids = ∅ ∧ s'.requests.live = ∅ := by
  cases h with
  | version message reset answer =>
    obtain ⟨_, _, _, _, heq⟩ := reset_frame reset
    rw [heq]
    exact .inr ⟨rfl, rfl⟩
  | rejected e uses | refused e begins => exact .inl rfl
  | flushed begins old found =>
    left
    unfold cancel
    split
    · rfl
    · rfl
  | dispatched begins permits acquires =>
    left
    rw [acquires.frame]
    rfl

theorem Session.Completion.variant_eq {s' : Session}
    {reply : Option RMessage} (h : s.Completion r result reply s') : s'.variant = s.variant := by
  cases h with
  | stale dead | failed e live cause => rfl
  | answered live negotiated answers bindable =>
    unfold bindOpt
    split
    · rfl
    · rfl

-- The walk of a dispatch starts where its fid stands.
private theorem start_of_permits {qid : Qid} (h : s.Permits kind m) (hs : kind.start = some qid) :
    ∃ (f : Fid) (st : FidState), s.fids[f]? = some st ∧ st.qid = qid := by
  cases kind with
  | walk fid newfid start wnames =>
    cases hs
    cases m with
    | walk tag fid' newfid' wnames' =>
      obtain ⟨st, hst, -, -, -, hk⟩ := h
      cases hk
      exact ⟨fid, st, hst, rfl⟩
    | _ => simp [Session.Permits] at h
  | _ => cases hs

theorem World.Plain.onAdmit (hp : w.session.variant = some .plain → w.Plain)
    (ht : w.Tracked) (hs : w.session.WF) (m : TMessage)
    (plain : (w.onAdmit m).session.variant = some .plain) : (w.onAdmit m).Plain := by
  have ha := hs.admission m
  have hsp : w.Step (.admitted m (admitMessage w.session m).1) (w.onAdmit m) := .admits m
  rcases ha.variant_eq with hv | ⟨hf, hl⟩
  · have hw := hp (hv ▸ plain)
    constructor
    · intro f st hst
      rw [World.fids_step hs hsp] at hst
      rcases effect_cases hst with ⟨st', hbf, hq⟩ | hb
      · rw [hq]
        exact hw.bound f st' hbf
      · cases hb
    · intro r hr hl qid hq
      rcases World.mem_issued_onAdmit hr with hn | ho
      · rw [hn] at ha
        have hpr : w.session.Permits r.kind m := by
          generalize (admitMessage w.session m).2 = s' at ha
          cases ha with
          | dispatched begins permits acquires => exact permits
        obtain ⟨f, st, hst, rfl⟩ := start_of_permits hpr hq
        exact hw.bound f st hst
      · apply hw.walking r ho _ qid hq
        by_contra dead
        exact World.dead_step ht hs hsp (ht.older r ho) dead hl
  · constructor
    · intro f st hst
      change (admitMessage w.session m).2.fids[f]? = some st at hst
      rw [hf] at hst
      cases hst
    · intro r _ hl'
      change (admitMessage w.session m).2.requests.live[r.key.tag]? = some r.key at hl'
      rw [hl] at hl'
      cases hl'

theorem World.Plain.onComplete (hw : w.Plain) (hs : w.session.WF)
    (plain : w.session.variant = some .plain) (issued : r ∈ w.issued)
    (result : Result ServerCompletion) : (w.onComplete r result).Plain := by
  have hc := w.session.completion r result
  have hsp : w.Step (.completed r result (complete w.session r result).1)
      (w.onComplete r result) := .completes r result issued
  constructor
  · intro f st hst
    rw [World.fids_step hs hsp] at hst
    rcases effect_cases hst with ⟨st', hbf, hq⟩ | hb
    · rw [hq]
      exact hw.bound f st' hbf
    · generalize (complete w.session r result).1 = reply at hc hb
      generalize (complete w.session r result).2 = s' at hc
      cases hc with
      | stale dead => cases hb
      | failed e live cause =>
        rw [errorReply_eq] at hb
        have hn := (binding_error r.kind r.tag e.message).1
        exact absurd (hn.symm.trans hb) (by simp)
      | answered live negotiated answers bindable =>
        rw [plain] at negotiated
        cases negotiated
        exact binding_plain answers (hw.walking r issued live) hb
  · intro r' hr' hl
    exact hw.walking r' hr' (hc.live_before hl)

/-- While the generations last, a plain session holds nothing of the extended dialect. -/
theorem World.plain (run : (server config).Run history w) (hg : w.generations < 2 ^ 64)
    (plain : w.session.variant = some .plain) : w.Plain := by
  revert hg plain
  apply run.invariant (I := fun _ w => w.generations < 2 ^ 64 →
    w.session.variant = some .plain → w.Plain)
  · intro w hw _ plain
    rw [hw] at plain
    cases plain
  · intro history w call w' hr ih hsp hg plain
    have hbf := Nat.lt_of_le_of_lt (generations_mono hsp) hg
    have hs := (sound hr).wf
    cases hsp with
    | admits m => exact .onAdmit (ih hbf) (tracked hr hbf) hs m plain
    | completes r result issued =>
      have hv := (w.session.completion r result).variant_eq
      have hp : w.session.variant = some .plain := hv.symm.trans plain
      exact (ih hbf hp).onComplete hs hp issued result

/-- While the generations last, a session that speaks plain 9P2000 has no symbolic link among
its fids, shows none and dispatches no request of the extended dialect. -/
theorem dialect_confined (run : (server config).Run history w) (hgen : w.generations < 2 ^ 64)
    (plain : w.session.variant = some .plain) :
    (∀ (f : Fid) (st : FidState), w.session.fids[f]? = some st → st.qid.isSymlink = false) ∧
    (∀ m, PlainEvent (admitMessage w.session m).1) ∧
    ∀ r result reply, (complete w.session r result).1 = some reply →
      PlainReply reply ∧ ∀ stats tag data, result = .ok (.read (.directory stats)) →
        reply = .read tag data →
        ∃ entries, decodeDirEntries data = .ok entries ∧ ∀ stat ∈ entries, PlainStat stat := by
  refine ⟨(World.plain run hgen plain).bound, ?_, ?_⟩
  · exact admission_plain (World.sound run).wf plain
  · intro r result reply hr
    exact complete_plain plain hr

/-- A server of the extended dialect. -/
def extended : ServerConfig := { ServerConfig.default with variant := .r }

/-- The qid of a symbolic link. -/
def linkQid : Qid := ⟨0x02, 0, 7⟩

/-- At the end of the generations a walk in place from a symbolic link is under way when the
peer goes back to plain 9P2000, and its key goes to an attach. -/
def downgraded : World :=
  ((((((World.versioned extended 8192 (utf8 "9P2000.R") (2 ^ 64 - 1)).onAdmit
    (attachAt 9 0)).onComplete (lateAttach 9 0) (.ok (.attach linkQid))).onAdmit
    (.walk 1 0 1 [])).onAdmit plainVersion).onAdmit (attachAt 1 5)).onComplete
    ⟨⟨1, 0xffffffffffffffff⟩, .walk 0 1 linkQid []⟩ (.ok (.walk []))

/-- A counter at its end lets the walk of an earlier session bind a symbolic link. -/
theorem dialect_leaks_at_the_end : (∃ history, (server extended).Run history downgraded) ∧
    downgraded.session.variant = some .plain ∧
    downgraded.session.fids[(1 : Fid)]? = some (.new linkQid) ∧ linkQid.isSymlink = true := by
  obtain ⟨history, hr⟩ := World.run_versioned extended NOTAG 8192 (utf8 "9P2000.R") (2 ^ 64 - 1)
  refine ⟨⟨_, .next (.next (.next (.next (.next (.next hr (.admits (attachAt 9 0)))
    (.completes (lateAttach 9 0) _ ?_)) (.admits (.walk 1 0 1 []))) (.admits plainVersion))
    (.admits (attachAt 1 5))) (.completes _ _ ?_)⟩, ?_, ?_, ?_⟩
  · decide +kernel
  · decide +kernel
  · decide +kernel
  · decide +kernel
  · decide

theorem dialect_confined_rootOpen :
    rootOpen.session.fids[(0 : Fid)]? = some (.opened rootQid 0) ∧ rootQid.isSymlink = false := by
  obtain ⟨_, _, _, _, hr, _⟩ := run_rootOpen
  have hst : rootOpen.session.fids[(0 : Fid)]? = some (.opened rootQid 0) := by decide +kernel
  exact ⟨hst, (dialect_confined hr (by decide +kernel) (by decide +kernel)).1 0 _ hst⟩

end R9P.Server
