import R9P.Server.Acquisition
import R9P.Server.Handlers

/-!
# What admitting a message can come to

Library `Server`. `Admission` lists every way `admit` (`handlers.rs:23`) can end, with the
checks that were passed and the state reached: a version reset, a refusal that leaves the
session as it was, a flush, or a dispatched request holding exactly its claims.
-/

namespace R9P.Server
open Std Base Base.Checked Wire

/-- The claims a request lays at admission. -/
def ServerRequestKind.claims : ServerRequestKind → List (Fid × Claim)
  | auth afid _ _ => [(afid, .fresh)]
  | attach fid afid _ _ =>
    if afid ≠ NOFID then [(afid, .held), (fid, .fresh)] else [(fid, .fresh)]
  | walk fid newfid _ _ =>
    if newfid = fid then [(fid, .held)] else [(fid, .shared), (newfid, .fresh)]
  | .open fid _ _ | create fid _ _ _ _ | wstat fid _ _ => [(fid, .held)]
  | read fid qid _ _ => if qid.isDir then [(fid, .held)] else []
  | write .. | stat .. => []
  | clunk fid _ | remove fid _ => [(fid, .retired)]
  | renameAt olddirfid _ _ newdirfid _ _ =>
    if newdirfid ≠ olddirfid then [(olddirfid, .shared), (newdirfid, .shared)]
    else [(olddirfid, .shared)]
  | referrals fid _ => [(fid, .shared)]

namespace Session

/-- The checks behind a dispatched request, and the request that a message turns into. -/
def Permits (s : Session) (kind : ServerRequestKind) : TMessage → Prop
  | .version .. | .flush .. => False
  | .auth _ afid uname aname =>
    s.authorizeUname uname = .ok () ∧ afid ≠ NOFID ∧ kind = .auth afid uname aname
  | .attach _ fid afid uname aname =>
    s.authorizeUname uname = .ok () ∧
      (afid ≠ NOFID → ∃ st, s.fids[afid]? = some st ∧ st.qid.isAuth = true) ∧
      kind = .attach fid afid uname aname
  | .walk _ fid newfid wnames => ∃ st, s.fids[fid]? = some st ∧
      validateWalkNames wnames = .ok () ∧ st.openMode = none ∧
      (wnames = [] ∨ st.qid.isDir = true) ∧ kind = .walk fid newfid st.qid wnames
  | .open _ fid mode => ∃ st, s.fids[fid]? = some st ∧
      validateOpen st mode = .ok () ∧ kind = .open fid st.qid mode
  | .create _ fid name perm mode => ∃ st, s.fids[fid]? = some st ∧
      validateCreate st perm mode = .ok () ∧ kind = .create fid st.qid name perm mode
  | .read _ fid offset count => ∃ st, s.fids[fid]? = some st ∧
      validateRead st offset = .ok () ∧
      kind = .read fid st.qid offset (clampReadCount s.msize count)
  | .write _ fid offset data => ∃ st, s.fids[fid]? = some st ∧
      data.length ≤ (maxWritePayload s.msize).toNat ∧ validateWrite st = .ok () ∧
      kind = .write fid st.qid offset data
  | .clunk _ fid => ∃ st, s.fids[fid]? = some st ∧ kind = .clunk fid st.qid
  | .remove _ fid => ∃ st, s.fids[fid]? = some st ∧ kind = .remove fid st.qid
  | .stat _ fid => ∃ st, s.fids[fid]? = some st ∧ kind = .stat fid st.qid
  | .wstat _ fid stat => ∃ st variant, s.fids[fid]? = some st ∧ s.variant = some variant ∧
      validateWstat st.qid stat variant = .ok () ∧ kind = .wstat fid st.qid stat
  | .renameAt _ olddirfid oldname newdirfid newname => ∃ olddir newdir variant,
      s.fids[olddirfid]? = some olddir ∧ s.fids[newdirfid]? = some newdir ∧
      s.variant = some variant ∧ variant.supportsRenameAt = true ∧
      validateWalkNames [oldname, newname] = .ok () ∧
      olddir.qid.isDir = true ∧ newdir.qid.isDir = true ∧
      kind = .renameAt olddirfid olddir.qid oldname newdirfid newdir.qid newname
  | .referrals _ fid => ∃ st variant, s.fids[fid]? = some st ∧ s.variant = some variant ∧
      variant.supportsReferrals = true ∧ kind = .referrals fid st.qid

/-- Cancel the request that holds a tag and drop its reservations. -/
def cancel (s : Session) (oldtag : Tag) : Session :=
  let dropped := s.withRequests { s.requests with live := s.requests.live.erase oldtag }
  match s.requests.live[oldtag]? with
  | some key => dropped.releaseReservations key
  | none => dropped

/-- What a flush reports about a tag. -/
def flushOutcome (s : Session) (oldtag : Tag) : FlushOutcome :=
  match s.requests.live[oldtag]? with
  | some key => .cancelled key
  | none => .unknown

/-- What a request can come to once it has its key. -/
def AdmitOutcome (s : Session) (key : RequestKey) (m : TMessage) :
    Result ServerEvent → Session → Prop
  | .error _, s' => ∃ claims, (∀ p ∈ claims, p.2 ≠ .retired) ∧ Acquires key s claims s'
  | .ok (.dispatch r), s' =>
    r.key = key ∧ s.Permits r.kind m ∧ Acquires key s r.kind.claims s'
  | .ok (.flush reply outcome), s' => ∃ tag oldtag, m = .flush tag oldtag ∧ oldtag ≠ NOTAG ∧
      reply = .flush key.tag ∧ outcome = s.flushOutcome oldtag ∧
      s' = (s.cancel oldtag).withRequests ((s.cancel oldtag).requests.finish key).2
  | .ok (.reply _), _ => False

variable {s s' : Session} {key : RequestKey} {m : TMessage} {tag : Tag}

private theorem refusal (e : Error) : s.AdmitOutcome key m (.error e) s :=
  ⟨[], by simp, .nil⟩

-- A check that fails is a refusal.
private theorem wp_asked {α : Type} {check : Session → Result α}
    {next : α → Checked Session Error ServerEvent}
    (h : ∀ v, check s = .ok v → (next v).wp (s.AdmitOutcome key m) s) :
    (.ask check >>= next : Checked Session Error ServerEvent).wp (s.AdmitOutcome key m) s :=
  wp_ask_bind (fun e _ => refusal e) h

private theorem refusal_after {f : Fid} {c : Claim} (h : Acquire key s f c s')
    (hc : c ≠ .retired) (e : Error) : s.AdmitOutcome key m (.error e) s' := by
  refine ⟨[(f, c)], ?_, .single h⟩
  intro p hp
  rw [List.mem_singleton.mp hp]
  exact hc

-- A fid that may be used is bound; the other condition is about who reserves it.
private theorem bound_of_fid {f : Fid} {st : FidState} (h : s.fid f = .ok st) :
    s.fids[f]? = some st := (fid_ok_iff.mp h).2

/-- The arms of `admit_after_begin` (`handlers.rs:102`). -/
theorem wp_admitAfterBegin (m : TMessage) :
    (admitAfterBegin m key).wp (s.AdmitOutcome key m) s := by
  cases m with
  | version tag msize version => exact refusal _
  | auth tag afid uname aname =>
    refine wp_asked fun _ ha => ?_
    refine wp_refuseIf_bind (fun _ => refusal _) fun hno => ?_
    rw [wp_bind]
    refine wp_reserveNewFid (fun e => refusal e) fun s' h => ?_
    exact ⟨rfl, ⟨ha, of_decide_eq_false hno, rfl⟩, .single h⟩
  | attach tag fid afid uname aname =>
    refine wp_asked fun _ ha => ?_
    rw [wp_ite]
    constructor
    · intro haf
      refine wp_asked fun st hst => ?_
      refine wp_refuseIf_bind (fun _ => refusal _) fun hno => ?_
      rw [wp_bind]
      refine wp_reserveExistingFid (fun e => refusal e) fun s₁ h₁ => ?_
      dsimp only
      rw [wp_bind]
      refine wp_reserveNewFid (fun e => refusal_after h₁ (by decide) e) fun s₂ h₂ => ?_
      refine ⟨rfl, ⟨ha, fun _ => ⟨st, bound_of_fid hst, by simpa using hno⟩, rfl⟩, ?_⟩
      rw [ServerRequestKind.claims, if_pos haf]
      exact .cons h₁ (.single h₂)
    · intro haf
      rw [wp_bind]
      refine wp_reserveNewFid (fun e => refusal e) fun s' h => ?_
      refine ⟨rfl, ⟨ha, fun hne => absurd hne haf, rfl⟩, ?_⟩
      rw [ServerRequestKind.claims, if_neg haf]
      exact .single h
  | flush tag oldtag =>
    unfold admitAfterBegin
    rw [wp_bind, wp_ofExec]
    unfold RequestTable.flush
    by_cases hno : oldtag = NOTAG
    · simp only [hno, if_true]
      exact refusal _
    · simp only [hno, if_false]
      cases hol : s.requests.live[oldtag]? with
      | some cancelled | none =>
        refine ⟨tag, oldtag, rfl, hno, rfl, ?_, ?_⟩
        · rw [flushOutcome, hol]
        · rw [cancel, hol]
          rfl
  | walk tag fid newfid wnames =>
    refine wp_asked fun _ hn => ?_
    refine wp_asked fun st hst => ?_
    refine wp_refuseIf_bind (fun _ => refusal _) fun hop => ?_
    refine wp_refuseIf_bind (fun _ => refusal _) fun hdr => ?_
    have hp : s.Permits (.walk fid newfid st.qid wnames) (.walk tag fid newfid wnames) := by
      refine ⟨st, bound_of_fid hst, hn, by simpa using hop, ?_, rfl⟩
      cases wnames with
      | nil => exact .inl rfl
      | cons name rest => exact .inr (by simpa using hdr)
    rw [wp_ite]
    constructor
    · intro hsm
      rw [wp_bind]
      refine wp_reserveExistingFid (fun e => refusal e) fun s' h => ?_
      refine ⟨rfl, hp, ?_⟩
      rw [ServerRequestKind.claims, if_pos hsm]
      exact .single h
    · intro ho
      rw [wp_bind]
      refine wp_reserveSharedFid (fun e => refusal e) fun s₁ h₁ => ?_
      rw [wp_bind]
      refine wp_reserveNewFid (fun e => refusal_after h₁ (by decide) e) fun s₂ h₂ => ?_
      refine ⟨rfl, hp, ?_⟩
      rw [ServerRequestKind.claims, if_neg ho]
      exact .cons h₁ (.single h₂)
  | «open» tag fid mode =>
    refine wp_asked fun st hst => ?_
    refine wp_asked fun _ hop => ?_
    rw [wp_bind]
    refine wp_reserveExistingFid (fun e => refusal e) fun s' h => ?_
    exact ⟨rfl, ⟨st, bound_of_fid hst, hop, rfl⟩, .single h⟩
  | create tag fid name perm mode =>
    refine wp_asked fun st hst => ?_
    refine wp_asked fun _ hc => ?_
    rw [wp_bind]
    refine wp_reserveExistingFid (fun e => refusal e) fun s' h => ?_
    exact ⟨rfl, ⟨st, bound_of_fid hst, hc, rfl⟩, .single h⟩
  | read tag fid offset count =>
    refine wp_asked fun st hst => ?_
    refine wp_asked fun _ hr => ?_
    rw [wp_ite]
    constructor
    · intro hdr
      rw [wp_bind]
      refine wp_reserveExistingFid (fun e => refusal e) fun s' h => ?_
      have hm : s'.msize = s.msize := by rw [h.frame]
      refine ⟨rfl, ⟨st, bound_of_fid hst, hr, by rw [hm]⟩, ?_⟩
      rw [ServerRequestKind.claims, if_pos hdr]
      exact .single h
    · intro hf
      refine ⟨rfl, ⟨st, bound_of_fid hst, hr, rfl⟩, ?_⟩
      rw [ServerRequestKind.claims, if_neg hf]
      exact .nil
  | write tag fid offset data =>
    refine wp_asked fun _ hsz => ?_
    refine wp_asked fun st hst => ?_
    refine wp_asked fun _ hw => ?_
    rw [guard_ok] at hsz
    exact ⟨rfl, ⟨st, bound_of_fid hst, Nat.le_of_not_lt hsz, hw, rfl⟩, .nil⟩
  | clunk tag fid | remove tag fid =>
    unfold admitAfterBegin
    rw [wp_bind]
    refine wp_retireFid (fun e => refusal e) fun st s' hst h => ?_
    exact ⟨rfl, ⟨st, hst, rfl⟩, .single h⟩
  | stat tag fid =>
    refine wp_asked fun st hst => ?_
    exact ⟨rfl, ⟨st, bound_of_fid hst, rfl⟩, .nil⟩
  | wstat tag fid stat =>
    refine wp_asked fun st hst => ?_
    refine wp_asked fun variant hv => ?_
    refine wp_asked fun _ hws => ?_
    rw [wp_bind]
    refine wp_reserveExistingFid (fun e => refusal e) fun s' h => ?_
    exact ⟨rfl, ⟨st, variant, bound_of_fid hst, okOr_ok_iff.mp hv, hws, rfl⟩, .single h⟩
  | renameAt tag olddirfid oldname newdirfid newname =>
    refine wp_asked fun variant hv => ?_
    refine wp_refuseIf_bind (fun _ => refusal _) fun hs => ?_
    refine wp_asked fun _ hn => ?_
    refine wp_asked fun olddir hol => ?_
    refine wp_asked fun newdir hnw => ?_
    refine wp_refuseIf_bind (fun _ => refusal _) fun hd => ?_
    simp only [Bool.or_eq_false_iff, Bool.not_eq_false'] at hs hd
    have hp : s.Permits
        (.renameAt olddirfid olddir.qid oldname newdirfid newdir.qid newname)
        (.renameAt tag olddirfid oldname newdirfid newname) :=
      ⟨olddir, newdir, variant, bound_of_fid hol, bound_of_fid hnw, okOr_ok_iff.mp hv,
        hs, hn, hd.1, hd.2, rfl⟩
    rw [wp_bind]
    refine wp_reserveSharedFid (fun e => refusal e) fun s₁ h₁ => ?_
    rw [wp_ite]
    constructor
    · intro ho
      rw [wp_bind]
      refine wp_reserveSharedFid (fun e => refusal_after h₁ (by decide) e) fun s₂ h₂ => ?_
      refine ⟨rfl, hp, ?_⟩
      rw [ServerRequestKind.claims, if_pos ho]
      exact .cons h₁ (.single h₂)
    · intro hsm
      refine ⟨rfl, hp, ?_⟩
      rw [ServerRequestKind.claims, if_neg hsm]
      exact .single h₁
  | referrals tag fid =>
    refine wp_asked fun variant hv => ?_
    refine wp_refuseIf_bind (fun _ => refusal _) fun hs => ?_
    refine wp_asked fun st hst => ?_
    rw [wp_bind]
    refine wp_reserveSharedFid (fun e => refusal e) fun s' h => ?_
    exact ⟨rfl, ⟨st, variant, bound_of_fid hst, okOr_ok_iff.mp hv, by simpa using hs,
      rfl⟩, .single h⟩

/-! ### All ends of an admission -/

/-- The key a request with this tag would get. -/
def nextKey (s : Session) (tag : Tag) : RequestKey := ⟨tag, s.requests.nextGeneration⟩

/-- One generation used up. -/
def advance (s : Session) : Session :=
  s.withRequests { s.requests with nextGeneration := saturatingSucc s.requests.nextGeneration }

/-- A request holds the tag it began with. -/
def begun (s : Session) (tag : Tag) : Session :=
  s.withRequests
    ⟨saturatingSucc s.requests.nextGeneration, s.requests.live.insert tag (s.nextKey tag)⟩

/-- The message makes the request table hand out or skip a generation. -/
def usesGeneration (s : Session) : TMessage → Bool
  | .version .. => true
  | m => s.negotiated && m.tag != NOTAG && !s.requests.isLive m.tag

/-- The message starts a request of its own. -/
structure Begins (s : Session) (m : TMessage) : Prop where
  not_version : m.messageType ≠ TVERSION
  negotiated : s.negotiated = true
  tag_ne : m.tag ≠ NOTAG
  unused : s.requests.live[m.tag]? = none
  uses : s.usesGeneration m = true

/-- Every way an admission can end. -/
inductive Admission (s : Session) : TMessage → ServerEvent → Session → Prop
  | version {tag : Tag} {msize : UInt32} {version : Bytes} (message : RMessage) {s' : Session}
      (reset : (s.resetForVersion msize version).2 = s')
      (answer : (versionReply tag (s.resetForVersion msize version)).1 = .reply message) :
      Admission s (.version tag msize version) (.reply message) s'
  | rejected {m : TMessage} (e : Error) (uses : s.usesGeneration m = false) :
      Admission s m (.reply (errorReply m.tag e)) s
  | refused {m : TMessage} (e : Error) (begins : s.Begins m) :
      Admission s m (.reply (errorReply m.tag e)) s.advance
  | flushed {tag oldtag : Tag} {outcome : FlushOutcome} (begins : s.Begins (.flush tag oldtag))
      (old : oldtag ≠ NOTAG)
      (found : oldtag ≠ tag → outcome = s.flushOutcome oldtag) :
      Admission s (.flush tag oldtag) (.flush (.flush tag) outcome) (s.cancel oldtag).advance
  | dispatched {m : TMessage} {kind : ServerRequestKind} {s' : Session} (begins : s.Begins m)
      (permits : s.Permits kind m)
      (acquires : Acquires (s.nextKey m.tag) (s.begun m.tag) kind.claims s') :
      Admission s m (.dispatch ⟨s.nextKey m.tag, kind⟩) s'

-- The next key is not in use, since only live requests reserve and its tag is free.
private theorem not_names_nextKey (hs : s.WF)
    (hu : s.requests.live[tag]? = none) (f : Fid) : ¬ (s.entry f).Names (s.nextKey tag) := by
  intro hk
  have hl := hs.named_live f _ hk
  exact absurd (hu.symm.trans hl) (by simp)

-- The table of a request that has begun, once the request is finished again.
private theorem finish_begun (hu : s.requests.live[tag]? = none) :
    ((s.begun tag).requests.finish (s.nextKey tag)).2 = s.advance.requests := by
  have hsl : (s.begun tag).requests.live[(s.nextKey tag).tag]? = some (s.nextKey tag) :=
    get_insert.trans (if_pos rfl)
  unfold RequestTable.finish
  rw [hsl]
  simp only [if_true]
  change (⟨_, (s.requests.live.insert tag _).erase tag⟩ : RequestTable) = _
  rw [erase_insert_self hu]
  rfl

private theorem finishWithReply_begun (hs : s.WF) (hu : s.requests.live[tag]? = none)
    {claims : List (Fid × Claim)} (hc : ∀ p ∈ claims, p.2 ≠ .retired)
    (h : Acquires (s.nextKey tag) (s.begun tag) claims s') (reply : RMessage) :
    finishWithReply s' (s.nextKey tag) reply = (.reply reply, s.advance) := by
  have hr : s'.requests = (s.begun tag).requests := by rw [h.frame]
  have hrl : s'.releaseReservations (s.nextKey tag) = s.begun tag := by
    rw [h.release_eq hc]
    change (s.releaseReservations (s.nextKey tag)).withRequests _ = _
    rw [hs.releaseReservations_eq_self (not_names_nextKey hs hu)]
    rfl
  change (ServerEvent.reply reply, (s'.releaseReservations (s.nextKey tag)).withRequests
    (s'.requests.finish (s.nextKey tag)).2) = _
  rw [hrl, hr, finish_begun hu]
  rfl

-- Finishing a request that has begun, with another tag cancelled in between.
private theorem finish_erase_begun {tag oldtag : Tag} (hne : oldtag ≠ tag)
    (hu : s.requests.live[tag]? = none) :
    (RequestTable.finish ⟨saturatingSucc s.requests.nextGeneration,
      (s.begun tag).requests.live.erase oldtag⟩ (s.nextKey tag)).2 =
      ⟨saturatingSucc s.requests.nextGeneration, s.requests.live.erase oldtag⟩ := by
  have hsl : ((s.begun tag).requests.live.erase oldtag)[(s.nextKey tag).tag]? =
      some (s.nextKey tag) := by
    change ((s.requests.live.insert tag (s.nextKey tag)).erase oldtag)[tag]? = _
    rw [get_erase, if_neg hne, get_insert, if_pos rfl]
  unfold RequestTable.finish
  rw [hsl]
  simp only [if_true]
  congr 1
  apply ExtTreeMap.ext_getElem?
  intro t
  change (((s.requests.live.insert tag (s.nextKey tag)).erase oldtag).erase tag)[t]? = _
  simp only [get_erase, get_insert]
  by_cases ht : tag = t
  · simp [← ht, hu]
  · simp [ht]

-- A flush of its own tag finds the flush itself; of any other tag, what was there before.
private theorem cancel_begun (hs : s.WF) {tag oldtag : Tag} (hu : s.requests.live[tag]? = none) :
    ((s.begun tag).cancel oldtag).withRequests
      (((s.begun tag).cancel oldtag).requests.finish (s.nextKey tag)).2 =
      (s.cancel oldtag).advance := by
  by_cases hsm : oldtag = tag
  · have hc : s.cancel tag = s := by
      rw [cancel, hu]
      rw [erase_eq_self hu]
      rfl
    have hsl : (s.begun tag).requests.live[tag]? = some (s.nextKey tag) :=
      get_insert.trans (if_pos rfl)
    have hb : (s.begun tag).cancel tag = s.advance := by
      rw [cancel, hsl]
      change (s.releaseReservations (s.nextKey tag)).withRequests
        ⟨_, (s.requests.live.insert tag (s.nextKey tag)).erase tag⟩ = _
      rw [hs.releaseReservations_eq_self (not_names_nextKey hs hu), erase_insert_self hu]
      rfl
    have hf : (s.advance.requests.finish (s.nextKey tag)).2 = s.advance.requests := by
      have hn : s.advance.requests.live[(s.nextKey tag).tag]? = none := hu
      rw [RequestTable.finish, hn]
    rw [hsm, hb, hc, hf]
    rfl
  · have hlk : (s.begun tag).requests.live[oldtag]? = s.requests.live[oldtag]? :=
      get_insert.trans (if_neg (Ne.symm hsm))
    have hb : (s.begun tag).cancel oldtag = (s.cancel oldtag).withRequests
        ⟨saturatingSucc s.requests.nextGeneration, (s.begun tag).requests.live.erase oldtag⟩ := by
      rw [cancel, cancel, hlk]
      cases s.requests.live[oldtag]? with
      | none | some key => rfl
    have hl : (s.cancel oldtag).advance.requests =
        ⟨saturatingSucc s.requests.nextGeneration, s.requests.live.erase oldtag⟩ := by
      unfold cancel
      cases s.requests.live[oldtag]? with
      | none | some key => rfl
    rw [hb]
    change (s.cancel oldtag).withRequests (RequestTable.finish ⟨_, _⟩ (s.nextKey tag)).2 = _
    rw [finish_erase_begun hsm hu, ← hl]
    rfl

private theorem permits_begun {kind : ServerRequestKind}
    (h : (s.begun tag).Permits kind m) : s.Permits kind m := by
  cases m <;> exact h

private theorem admitRequest_cases (hs : s.WF) (hb : s.Begins m) :
    s.Admission m (admitRequest s m).1 (admitRequest s m).2 := by
  have hbg : s.requests.begin m.tag = .ok (s.nextKey m.tag, (s.begun m.tag).requests) := by
    have hcn : s.requests.live.contains m.tag = false := by
      rw [ExtTreeMap.contains_eq_isSome_getElem?, hb.unused]
      rfl
    rw [RequestTable.begin, if_neg hb.tag_ne, hcn]
    rfl
  have ho : (s.begun m.tag).AdmitOutcome (s.nextKey m.tag) m
      ((admitAfterBegin m (s.nextKey m.tag)).exec (s.begun m.tag)).1
      ((admitAfterBegin m (s.nextKey m.tag)).exec (s.begun m.tag)).2 := wp_admitAfterBegin m
  unfold admitRequest
  rw [hbg]
  dsimp only
  rw [show { s with requests := (s.begun m.tag).requests } = s.begun m.tag from rfl]
  generalize (admitAfterBegin m (s.nextKey m.tag)).exec (s.begun m.tag) = out at ho ⊢
  obtain ⟨result, s'⟩ := out
  cases result with
  | error e =>
    obtain ⟨claims, hc, ha⟩ := ho
    dsimp only
    rw [finishWithReply_begun hs hb.unused hc ha]
    exact .refused e hb
  | ok event =>
    cases event with
    | reply message => exact ho.elim
    | dispatch request =>
      obtain ⟨hk, hp, ha⟩ := ho
      have hr : request = ⟨s.nextKey m.tag, request.kind⟩ := by rw [← hk]
      rw [hr]
      exact .dispatched hb (permits_begun hp) ha
    | flush reply outcome =>
      obtain ⟨tag, oldtag, rfl, hol, rfl, hot, rfl⟩ := ho
      dsimp only
      rw [cancel_begun hs hb.unused]
      refine .flushed hb hol fun hne => ?_
      rw [hot, flushOutcome, flushOutcome]
      have hlk : (s.begun (TMessage.flush tag oldtag).tag).requests.live[oldtag]? =
          s.requests.live[oldtag]? := get_insert.trans (if_neg (Ne.symm hne))
      rw [hlk]

private theorem admitRequest_rejects (hno : s.usesGeneration m = false)
    (hn : s.negotiated = true) (hm : m.messageType ≠ TVERSION) :
    ∃ e, admitRequest s m = (.reply (errorReply m.tag e), s) := by
  have hu : (m.tag != NOTAG && !s.requests.isLive m.tag) = false := by
    cases m with
    | version => exact absurd rfl hm
    | _ => simpa only [usesGeneration, hn, Bool.true_and] using hno
  unfold admitRequest RequestTable.begin
  by_cases ht : m.tag = NOTAG
  · rw [if_pos ht]
    exact ⟨_, rfl⟩
  · have hl : s.requests.live.contains m.tag = true := by
      simpa [ht, RequestTable.isLive] using hu
    rw [if_neg ht, if_pos hl]
    exact ⟨_, rfl⟩

-- Behind the version request, `admit` is the same for every message.
private theorem admitMessage_eq (hm : m.messageType ≠ TVERSION) :
    admitMessage s m = if !s.negotiated then
      (.reply (errorReply m.tag (.fromStatic "version not negotiated")), s)
      else admitRequest s m := by
  cases m with
  | version => exact absurd rfl hm
  | _ => rfl

private theorem usesGeneration_eq (hm : m.messageType ≠ TVERSION) :
    s.usesGeneration m = (s.negotiated && m.tag != NOTAG && !s.requests.isLive m.tag) := by
  cases m with
  | version => exact absurd rfl hm
  | _ => rfl

/-- A version request is taken in any session. -/
theorem admission_version (hm : m.messageType = TVERSION) :
    s.Admission m (admitMessage s m).1 (admitMessage s m).2 := by
  cases m with
  | version tag msize version =>
    change s.Admission _ (versionReply tag (s.resetForVersion msize version)).1
      (versionReply tag (s.resetForVersion msize version)).2
    generalize hr : s.resetForVersion msize version = reset
    obtain ⟨negotiation, s'⟩ := reset
    cases negotiation with
    | ok outcome | error e => exact .version _ (congrArg Prod.snd hr) (by rw [hr]; rfl)
  | _ => cases hm

/-- Admission is exhausted by the cases of `Admission`. -/
theorem WF.admission (hs : s.WF) (m : TMessage) :
    s.Admission m (admitMessage s m).1 (admitMessage s m).2 := by
  by_cases hm : m.messageType = TVERSION
  · exact admission_version hm
  · rw [admitMessage_eq hm]
    cases hn : s.negotiated with
    | false =>
      refine .rejected _ ?_
      rw [usesGeneration_eq hm, hn]
      rfl
    | true =>
      simp only [Bool.not_true, Bool.false_eq_true, if_false]
      cases hu : s.usesGeneration m with
      | false =>
        obtain ⟨e, he⟩ := admitRequest_rejects hu hn hm
        rw [he]
        exact .rejected e hu
      | true =>
        have hb := hu
        rw [usesGeneration_eq hm, Bool.and_eq_true, Bool.and_eq_true, bne_iff_ne,
          Bool.not_eq_true', RequestTable.isLive] at hb
        exact admitRequest_cases hs ⟨hm, hn, hb.1.2,
          ExtTreeMap.getElem?_eq_none_of_contains_eq_false hb.2, hu⟩

end Session

end R9P.Server
