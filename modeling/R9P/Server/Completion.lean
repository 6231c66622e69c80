import R9P.Server.Admission

/-!
# What completing a request can come to

Library `Server`. A completion of a live request frees its tag and its claims, then binds at
most one fid. `ApplyOutcome` says which (`bindingOf`), what the reply carries (`Answers`),
and that a failure leaves the session alone; the fid errors of `session.rs` are possible
only when the fid to be bound is taken (`Ready`).
-/

namespace R9P.Server
open Base Base.Checked Wire

namespace ServerRequestKind

/-- The fid that a request newly binds with its reply. -/
def binding : ServerRequestKind → RMessage → Option (Fid × FidState)
  | auth afid _ _, .auth _ qid => some (afid, .opened qid Mode.ORDWR)
  | attach fid _ _ _, .attach _ qid => some (fid, .new qid)
  | walk fid newfid start wnames, .walk _ qids =>
    if wnames = [] then if newfid = fid then none else some (newfid, .new start)
    else if qids.length = wnames.length then qids.getLast?.map fun qid => (newfid, .new qid)
    else none
  | .open fid _ mode, .open _ qid _ => some (fid, .opened qid mode)
  | create fid _ _ _ mode, .create _ qid _ => some (fid, .opened qid mode)
  | _, _ => none

/-- Where a directory read ended. -/
def readEnd : ServerRequestKind → RMessage → Option (Fid × UInt64)
  | read fid qid offset _, .read _ data =>
    if qid.isDir then some (fid, offset + UInt64.ofNat data.length) else none
  | _, _ => none

end ServerRequestKind

namespace Session

/-- Bind a fid. -/
def bind (s : Session) (f : Fid) (st : FidState) : Session := { s with fids := s.fids.insert f st }

/-- Bind at most one fid. -/
def bindOpt (s : Session) : Option (Fid × FidState) → Session
  | some (f, st) => s.bind f st
  | none => s

/-- A fid that `bind_fid` accepts. -/
structure Bindable (s : Session) (f : Fid) : Prop where
  free : s.entry f = .default
  room : f ∈ s.fids ∨ s.fids.size < s.config.maxFids

/-- The fids a completed request is about to bind are its to bind. -/
def Ready (s : Session) : ServerRequestKind → Prop
  | .auth fid _ _ | .attach fid _ _ _ => fid ∉ s.fids ∧ s.Bindable fid
  | .walk fid newfid _ _ =>
    if newfid = fid then fid ∈ s.fids ∧ s.Bindable fid else newfid ∉ s.fids ∧ s.Bindable newfid
  | .open fid _ _ | .create fid _ _ _ _ => fid ∈ s.fids ∧ s.Bindable fid
  | .read fid qid _ _ => qid.isDir = true → fid ∈ s.fids ∧ s.Bindable fid
  | .write .. | .clunk .. | .remove .. | .stat .. | .wstat .. | .renameAt .. | .referrals .. => True

/-- The fid that a reply says is bound, and to what: a directory read moves its fid on. -/
def bindingOf (s : Session) (kind : ServerRequestKind) (reply : RMessage) :
    Option (Fid × FidState) :=
  match kind.readEnd reply with
  | some (fid, offset) => s.fids[fid]?.map fun st => (fid, st.withDirectoryOffset offset)
  | none => kind.binding reply

end Session

/-- The reply to a completion of the matching kind, and the checks it passed. -/
def Answers (variant : Variant) (msize : UInt32) (tag : Tag) :
    ServerRequestKind → ServerCompletion → RMessage → Prop
  | .auth .., .auth qid, reply =>
    qid.isAuth = true ∧ validateQidVariant variant qid = .ok () ∧ reply = .auth tag qid
  | .attach .., .attach qid, reply =>
    validateQidVariant variant qid = .ok () ∧ reply = .attach tag qid
  | .walk _ _ _ wnames, .walk qids, reply =>
    qids.length ≤ wnames.length ∧ (∀ qid ∈ qids, validateQidVariant variant qid = .ok ()) ∧
      (wnames ≠ [] → qids ≠ []) ∧ reply = .walk tag qids
  | .open .., .open opened, reply => validateQidVariant variant opened.qid = .ok () ∧
      reply = .open tag opened.qid (clampIounit msize opened.iounit)
  | .create .., .create opened, reply => validateQidVariant variant opened.qid = .ok () ∧
      reply = .create tag opened.qid (clampIounit msize opened.iounit)
  | .read _ _ _ count, .read (.bytes bytes), reply => reply = .read tag (takeCount bytes count)
  | .read _ _ offset count, .read (.directory stats), reply =>
    (∀ stat ∈ stats, validateStatVariant variant stat = .ok ()) ∧
      ∃ data, dirreadChunk stats offset count = .ok data ∧ reply = .read tag data
  | .write _ _ _ data, .write count, reply =>
    count.toNat ≤ data.length ∧ reply = .write tag count
  | .clunk .., .clunk, reply => reply = .clunk tag
  | .remove .., .remove, reply => reply = .remove tag
  | .stat .., .stat stat, reply =>
    validateStatVariant variant stat = .ok () ∧ reply = .stat tag stat
  | .wstat .., .wstat, reply => reply = .wstat tag
  | .renameAt .., .renameAt, reply => reply = .renameAt tag
  | .referrals .., .referrals referrals, reply =>
    (∀ referral ∈ referrals, referral.validate = .ok ()) ∧ reply = .referrals tag referrals
  | _, _, _ => False

/-- The error texts that tell a client its fid was taken, busy, refused or unknown. -/
def fidErrors : List Bytes := [utf8 EFIDINUSE, utf8 EFIDBUSY, utf8 EFIDLIMIT, utf8 EBADFID]

/-- An error that has nothing to do with the state of a fid. -/
def Foreign (e : Error) : Prop := e.message ∉ fidErrors

instance (e : Error) : Decidable (Foreign e) := inferInstanceAs (Decidable (e.message ∉ fidErrors))

variable {variant : Variant} {kind : ServerRequestKind} {c : ServerCompletion} {tag : Tag}

/-- The reply to a matching completion is not an error. -/
theorem Answers.ne_error {msize : UInt32} {reply : RMessage}
    (h : Answers variant msize tag kind c reply) (t : Tag) (ename : Bytes) :
    reply ≠ .error t ename := by
  intro hr
  rw [hr] at h
  unfold Answers at h
  split at h <;> simp at h

/-- The reply carries the tag of the request. -/
theorem Answers.tag_eq {msize : UInt32} {reply : RMessage}
    (h : Answers variant msize tag kind c reply) : reply.tag = tag := by
  unfold Answers at h
  split at h
  case h_7 =>
    obtain ⟨-, data, -, rfl⟩ := h
    rfl
  all_goals first
    | exact h.elim
    | (rw [h]; rfl)
    | (rw [h.2]; rfl)
    | (rw [h.2.2]; rfl)
    | (rw [h.2.2.2]; rfl)

theorem errorReply_eq (tag : Tag) (e : Error) : errorReply tag e = .error tag e.message := by
  unfold errorReply
  split
  · next h => rw [h.2]
  · rfl

/-! ### Errors of the checks -/

variable {e : Error}

private theorem guard_foreign {p : Prop} [Decidable p] {e' : Error} (h : Foreign e)
    (he : (if p then Except.error e else .ok ()) = .error e') : Foreign e' := by
  split at he
  · cases he
    exact h
  · cases he

variable {α : Type} {check : α → Result Unit}

private theorem okOr_foreign {o : Option α} {text : String}
    (h : Foreign (.fromStatic text)) (he : okOr o text = .error e) : Foreign e := by
  cases o with
  | none =>
    cases he
    exact h
  | some a => cases he

private theorem validateQidVariant_foreign {qid : Qid}
    (h : validateQidVariant variant qid = .error e) : Foreign e :=
  guard_foreign (by decide) h

private theorem validateStatVariant_foreign {stat : Stat}
    (h : validateStatVariant variant stat = .error e) : Foreign e := by
  rcases bind_error.mp h with h | ⟨_, -, h⟩
  · exact validateQidVariant_foreign h
  · exact guard_foreign (by decide) h

private theorem tryU16_foreign {n : Nat} {text : String}
    (h : Foreign (.fromStatic text)) (he : tryU16 n text = .error e) : Foreign e := by
  unfold tryU16 at he
  split at he
  · cases he
  · cases he
    exact h

private theorem pushString_foreign {out value : Bytes}
    (h : pushString out value = .error e) : Foreign e := by
  rcases bind_error.mp h with h | ⟨_, -, h⟩
  · exact tryU16_foreign (by decide) h
  · cases h

private theorem encode_foreign {stat : Stat} (h : stat.encode = .error e) : Foreign e := by
  rcases bind_error.mp h with h | ⟨_, -, h⟩
  · exact pushString_foreign h
  rcases bind_error.mp h with h | ⟨_, -, h⟩
  · exact pushString_foreign h
  rcases bind_error.mp h with h | ⟨_, -, h⟩
  · exact pushString_foreign h
  rcases bind_error.mp h with h | ⟨_, -, h⟩
  · exact pushString_foreign h
  rcases bind_error.mp h with h | ⟨_, -, h⟩
  · exact tryU16_foreign (by decide) h
  · cases h

private theorem dirreadChunk_foreign {stats : List Stat} {offset : UInt64} {count : UInt32}
    (h : dirreadChunk stats offset count = .error e) : Foreign e := by
  unfold dirreadChunk at h
  -- Only encoding an entry can fail, whatever was collected before it.
  generalize ([] : Bytes) = out at h
  generalize (0 : UInt64) = position at h
  induction stats generalizing out position with
  | nil => cases h
  | cons stat stats ih =>
    rcases bind_error.mp h with h | ⟨encoded, -, h⟩
    · exact encode_foreign h
    · dsimp only at h
      split at h
      · exact ih _ _ h
      · split at h
        · cases h
        · split at h
          · cases h
          · exact ih _ _ h

private theorem validateText_foreign {field : String} {value : Bytes}
    (hem : Foreign (.fromStatic s!"namespace referral {field} must not be empty"))
    (hc : Foreign (.fromStatic s!"namespace referral {field} contains a control byte"))
    (h : validateText field value = .error e) : Foreign e := by
  unfold validateText at h
  split at h
  · cases h
    exact hem
  · exact guard_foreign hc h

private theorem validateAbsolutePath_foreign {field : String} {path : Bytes} {allowRoot : Bool}
    (hp : Foreign (.fromStatic s!"namespace referral {field} must be a canonical absolute path"))
    (h : validateAbsolutePath field path allowRoot = .error e) : Foreign e := by
  unfold validateAbsolutePath at h
  extract_lets valid at h
  clear_value valid
  cases valid with
  | true => cases h
  | false =>
    cases h
    exact hp

private theorem referral_foreign {referral : NamespaceReferral}
    (h : referral.validate = .error e) : Foreign e := by
  rcases bind_error.mp h with h | ⟨_, -, h⟩
  · exact validateAbsolutePath_foreign (by decide) h
  rcases bind_error.mp h with h | ⟨_, -, h⟩
  · exact validateAbsolutePath_foreign (by decide) h
  rcases bind_error.mp h with h | ⟨_, -, h⟩
  · exact validateText_foreign (by decide) (by decide) h
  rcases bind_error.mp h with h | ⟨_, -, h⟩
  · exact validateText_foreign (by decide) (by decide) h
  rcases bind_error.mp h with h | ⟨_, -, h⟩
  · exact validateText_foreign (by decide) (by decide) h
  rcases bind_error.mp h with h | ⟨_, -, h⟩
  · exact validateText_foreign (by decide) (by decide) h
  split at h
  · cases h
    decide
  · exact guard_foreign (by decide) h

/-- A failed check over a list is the failed check of one of its elements. -/
theorem forAll_error {as : List α}
    (h : forAll check as = .error e) : ∃ a ∈ as, check a = .error e := by
  induction as with
  | nil => cases h
  | cons a rest ih =>
    unfold forAll at h
    cases ha : check a with
    | error e' =>
      rw [ha] at h
      cases h
      exact ⟨a, List.mem_cons_self, ha⟩
    | ok u =>
      rw [ha] at h
      obtain ⟨b, hb, he⟩ := ih h
      exact ⟨b, List.mem_cons_of_mem a hb, he⟩

/-- A check over a list passes when it passes for every element. -/
theorem forAll_ok {as : List α} {u : Unit}
    (h : forAll check as = .ok u) : ∀ a ∈ as, check a = .ok () := by
  induction as with
  | nil => simp
  | cons a rest ih =>
    unfold forAll at h
    rw [check_ok] at h
    intro b hb
    rcases List.mem_cons.mp hb with rfl | hb
    · exact h.1
    · exact ih h.2 b hb

namespace Session

variable {s s' : Session} {key : RequestKey} {f : Fid} {st : FidState}
  {Q : Result Unit → Session → Prop}

/-! ### Binding -/

/-- `bind_fid` succeeds exactly for a bindable fid. -/
theorem wp_bindFid (her : ∀ e, ¬ s.Bindable f → Q (.error e) s)
    (hok : s.Bindable f → Q (.ok ()) (s.bind f st)) :
    (bindFid f st).wp Q s := by
  refine wp_ask_bind ?_ fun _ hf => ?_
  · intro e he
    refine her e fun hb => ?_
    rw [(ensureUnreserved_ok_iff (u := ())).mpr hb.free] at he
    cases he
  · refine wp_ask_bind ?_ fun _ hr => ?_
    · intro e he
      refine her e fun hb => ?_
      rw [if_neg] at he
      · cases he
      · rcases hb.room with hm | hlt
        · simp [hm]
        · simp [hlt]
    · refine hok ⟨ensureUnreserved_ok_iff.mp hf, ?_⟩
      by_cases hm : f ∈ s.fids
      · exact .inl hm
      · have hc : s.fids.contains f = false := Bool.eq_false_iff.mpr (by simpa using hm)
        right
        simpa [hc] using hr

/-- `insert_new_fid` succeeds exactly for an unbound fid that is bindable. -/
theorem wp_insertNewFid
    (her : ∀ e, ¬ (f ∉ s.fids ∧ s.Bindable f) → Q (.error e) s)
    (hok : f ∉ s.fids ∧ s.Bindable f → Q (.ok ()) (s.bind f st)) :
    (insertNewFid f st).wp Q s := by
  refine wp_ask_bind ?_ fun _ hn => ?_
  · intro e he
    refine her e fun hb => ?_
    rw [if_neg (by simpa using hb.1)] at he
    cases he
  · rw [guard_ok, Std.ExtTreeMap.contains_iff_mem] at hn
    exact wp_bindFid (fun e hb => her e fun h => hb h.2) fun hb => hok ⟨hn, hb⟩

/-- What applying a completion can come to. -/
def ApplyOutcome (s : Session) (tag : Tag) (kind : ServerRequestKind)
    (completion : ServerCompletion) : Result RMessage → Session → Prop
  | .error e, s' => s' = s ∧ (Foreign e ∨ ¬ s.Ready kind)
  | .ok reply, s' => (∃ variant, s.variant = some variant ∧
      Answers variant s.msize tag kind completion reply) ∧
      s' = s.bindOpt (s.bindingOf kind reply) ∧
      ∀ f st, s.bindingOf kind reply = some (f, st) → s.Bindable f

variable {tag : Tag} {kind : ServerRequestKind} {c : ServerCompletion}

private theorem fails (e : Error) (h : Foreign e) :
    s.ApplyOutcome tag kind c (.error e) s := ⟨rfl, .inl h⟩

private theorem bindingOf_walk {fid newfid : Fid} {start : Qid} {wnames : List Bytes}
    {qids : List Qid} : s.bindingOf (.walk fid newfid start wnames) (.walk tag qids) =
      if wnames = [] then if newfid = fid then none else some (newfid, .new start)
      else if qids.length = wnames.length then qids.getLast?.map fun qid => (newfid, .new qid)
      else none := rfl

-- The end of a read, common to bytes and directories: a directory remembers where it stopped.
private theorem wp_finishRead {fid : Fid} {qid : Qid} {offset : UInt64} {count : UInt32}
    {data : Bytes} (ha : ∃ variant, s.variant = some variant ∧
      Answers variant s.msize tag (.read fid qid offset count) c (.read tag data)) :
    wp (if qid.isDir then do
        let state ← .ask fun self => self.fid fid
        .refuseIf (offset.toNat + data.length ≥ 2 ^ 64) (.fromStatic "directory offset overflow")
        bindFid fid (state.withDirectoryOffset (offset + UInt64.ofNat data.length))
        pure (.read tag data)
      else pure (.read tag data))
      (s.ApplyOutcome tag (.read fid qid offset count) c) s := by
  rw [wp_ite]
  constructor
  · intro hd
    refine wp_ask_bind ?_ fun state hs => ?_
    · intro e he
      refine ⟨rfl, .inr fun hr => ?_⟩
      obtain ⟨hm, hb⟩ := hr hd
      obtain ⟨st, hst⟩ := mem_iff_exists.mp hm
      have hok : s.fid fid = .ok st := fid_ok_iff.mpr ⟨by rw [hb.free]; rfl, hst⟩
      rw [hok] at he
      cases he
    refine wp_refuseIf_bind (fun _ => fails _ (by decide)) fun _ => ?_
    have hb : s.bindingOf (.read fid qid offset count) (.read tag data) =
        some (fid, state.withDirectoryOffset (offset + UInt64.ofNat data.length)) := by
      rw [bindingOf, ServerRequestKind.readEnd, if_pos hd]
      dsimp only
      rw [(fid_ok_iff.mp hs).2]
      rfl
    rw [wp_bind]
    refine wp_bindFid (fun e hn => ⟨rfl, .inr fun hr => hn (hr hd).2⟩) fun hr => ?_
    refine ⟨ha, by rw [hb]; rfl, ?_⟩
    intro f st hf
    rw [hb] at hf
    cases hf
    exact hr
  · intro hfl
    have hb : s.bindingOf (.read fid qid offset count) (.read tag data) = none := by
      rw [bindingOf, ServerRequestKind.readEnd, if_neg hfl]
      rfl
    exact ⟨ha, by rw [hb]; rfl, by rw [hb]; nofun⟩

/-- The arms of `apply_completion` (`handlers.rs:368`). -/
theorem wp_applyCompletion (tag : Tag) (kind : ServerRequestKind) (completion : ServerCompletion) :
    (applyCompletion tag kind completion).wp (s.ApplyOutcome tag kind completion) s := by
  refine wp_ask_bind (fun e he => fails e (okOr_foreign (by decide) he))
    fun variant hv => ?_
  rw [okOr_ok_iff] at hv
  split
  · next afid _ _ qid =>
    refine wp_refuseIf_bind (fun _ => fails _ (by decide)) fun hat => ?_
    refine wp_ask_bind (fun e he => fails e (validateQidVariant_foreign he)) fun _ hq => ?_
    rw [wp_bind]
    refine wp_insertNewFid (fun e hn => ⟨rfl, .inr hn⟩) fun hr => ?_
    refine ⟨⟨variant, hv, by simpa using hat, hq, rfl⟩, rfl, ?_⟩
    intro f st hb
    cases hb
    exact hr.2
  · next fid _ _ _ qid =>
    refine wp_ask_bind (fun e he => fails e (validateQidVariant_foreign he)) fun _ hq => ?_
    rw [wp_bind]
    refine wp_insertNewFid (fun e hn => ⟨rfl, .inr hn⟩) fun hr => ?_
    refine ⟨⟨variant, hv, hq, rfl⟩, rfl, ?_⟩
    intro f st hb
    cases hb
    exact hr.2
  · next fid newfid start wnames qids =>
    refine wp_refuseIf_bind (fun _ => fails _ (by decide)) fun hln => ?_
    refine wp_ask_bind ?_ fun _ hq => ?_
    · intro e he
      obtain ⟨qid, -, hqi⟩ := forAll_error he
      exact fails e (validateQidVariant_foreign hqi)
    have hle : qids.length ≤ wnames.length := Nat.le_of_not_lt (of_decide_eq_false hln)
    have hqd := forAll_ok hq
    rw [wp_ite]
    constructor
    · intro hem
      rw [List.isEmpty_iff] at hem
      have hnl : qids = [] := by
        rw [hem, List.length_nil, Nat.le_zero, List.length_eq_zero_iff] at hle
        exact hle
      have ha : ∃ variant, s.variant = some variant ∧ Answers variant s.msize tag
          (.walk fid newfid start wnames) (.walk qids) (.walk tag []) :=
        ⟨variant, hv, hle, hqd, fun hne => absurd hem hne, by rw [hnl]⟩
      rw [wp_ite]
      constructor
      · intro ho
        rw [wp_bind]
        refine wp_insertNewFid (fun e hn => ⟨rfl, .inr ?_⟩) fun hr => ?_
        · rwa [Ready, if_neg ho]
        · have hb : s.bindingOf (.walk fid newfid start wnames) (.walk tag []) =
              some (newfid, .new start) := by
            rw [bindingOf_walk, if_pos hem, if_neg ho]
          refine ⟨ha, by rw [hb]; rfl, ?_⟩
          intro f st hf
          rw [hb] at hf
          cases hf
          exact hr.2
      · intro hs
        have hb : s.bindingOf (.walk fid newfid start wnames) (.walk tag []) = none := by
          rw [bindingOf_walk, if_pos hem, if_pos (not_not.mp hs)]
        exact ⟨ha, by rw [hb]; rfl, by rw [hb]; nofun⟩
    · intro hne
      rw [List.isEmpty_iff] at hne
      cases hl : qids.getLast? with
      | none => exact fails _ (by decide)
      | some qid =>
        have ha : ∃ variant, s.variant = some variant ∧ Answers variant s.msize tag
            (.walk fid newfid start wnames) (.walk qids) (.walk tag qids) := by
          refine ⟨variant, hv, hle, hqd, fun _ hnl => ?_, rfl⟩
          rw [hnl] at hl
          cases hl
        dsimp only
        rw [wp_ite]
        constructor
        · intro hal
          have hb : s.bindingOf (.walk fid newfid start wnames) (.walk tag qids) =
              some (newfid, .new qid) := by
            rw [bindingOf_walk, if_neg hne, if_pos hal, hl]
            rfl
          rw [wp_ite]
          constructor
          · intro hs
            rw [wp_bind]
            refine wp_bindFid (fun e hn => ⟨rfl, .inr fun hr => hn ?_⟩) fun hr => ?_
            · rw [Ready, if_pos hs] at hr
              exact hr.2
            · refine ⟨ha, by rw [hb, hs]; rfl, ?_⟩
              intro f st hf
              rw [hb] at hf
              cases hf
              exact hs ▸ hr
          · intro ho
            rw [wp_bind]
            refine wp_insertNewFid (fun e hn => ⟨rfl, .inr ?_⟩) fun hr => ?_
            · rwa [Ready, if_neg ho]
            · refine ⟨ha, by rw [hb]; rfl, ?_⟩
              intro f st hf
              rw [hb] at hf
              cases hf
              exact hr.2
        · intro hp
          have hb : s.bindingOf (.walk fid newfid start wnames) (.walk tag qids) = none := by
            rw [bindingOf_walk, if_neg hne, if_neg hp]
          exact ⟨ha, by rw [hb]; rfl, by rw [hb]; nofun⟩
  · next fid _ mode opened =>
    refine wp_ask_bind (fun e he => fails e (validateQidVariant_foreign he)) fun _ hq => ?_
    rw [wp_bind]
    refine wp_bindFid (fun e hn => ⟨rfl, .inr fun hr => hn hr.2⟩) fun hr => ?_
    refine ⟨⟨variant, hv, hq, rfl⟩, rfl, ?_⟩
    intro f st hb
    cases hb
    exact hr
  · next fid _ _ _ mode opened =>
    refine wp_ask_bind (fun e he => fails e (validateQidVariant_foreign he)) fun _ hq => ?_
    rw [wp_bind]
    refine wp_bindFid (fun e hn => ⟨rfl, .inr fun hr => hn hr.2⟩) fun hr => ?_
    refine ⟨⟨variant, hv, hq, rfl⟩, rfl, ?_⟩
    intro f st hb
    cases hb
    exact hr
  · next fid qid offset count data =>
    cases data with
    | bytes bytes => exact wp_finishRead ⟨variant, hv, rfl⟩
    | directory stats =>
      refine wp_ask_bind ?_ fun _ hst => ?_
      · intro e he
        obtain ⟨stat, -, hsa⟩ := forAll_error he
        exact fails e (validateStatVariant_foreign hsa)
      refine wp_ask_bind (fun e he => fails e (dirreadChunk_foreign he)) fun data hd => ?_
      exact wp_finishRead ⟨variant, hv, forAll_ok hst, data, hd, rfl⟩
  · next data count =>
    refine wp_refuseIf_bind (fun _ => fails _ (by decide)) fun hc => ?_
    exact ⟨⟨variant, hv, by simpa using hc, rfl⟩, rfl, nofun⟩
  · exact ⟨⟨variant, hv, rfl⟩, rfl, nofun⟩
  · exact ⟨⟨variant, hv, rfl⟩, rfl, nofun⟩
  · next stat =>
    refine wp_ask_bind (fun e he => fails e (validateStatVariant_foreign he)) fun _ hq => ?_
    exact ⟨⟨variant, hv, hq, rfl⟩, rfl, nofun⟩
  · exact ⟨⟨variant, hv, rfl⟩, rfl, nofun⟩
  · exact ⟨⟨variant, hv, rfl⟩, rfl, nofun⟩
  · next referrals =>
    refine wp_ask_bind ?_ fun _ hvl => ?_
    · intro e he
      obtain ⟨referral, -, hr⟩ := forAll_error he
      exact fails e (referral_foreign hr)
    · exact ⟨⟨variant, hv, forAll_ok hvl, rfl⟩, rfl, nofun⟩
  · exact fails _ (by decide)

/-! ### All ends of a completion -/

/-- Every way a completion can end. -/
inductive Completion (s : Session) (r : ServerRequest) :
    Result ServerCompletion → Option RMessage → Session → Prop
  | stale {result : Result ServerCompletion} (dead : ¬ s.IsLive r.key) :
      Completion s r result none s
  | failed {result : Result ServerCompletion} (e : Error) (live : s.IsLive r.key)
      (cause : ∀ c, result = .ok c → Foreign e ∨ ¬ (s.finished r.key).Ready r.kind) :
      Completion s r result (some (errorReply r.tag e)) (s.finished r.key)
  | answered {c : ServerCompletion} {reply : RMessage} {variant : Variant}
      (live : s.IsLive r.key) (negotiated : s.variant = some variant)
      (answers : Answers variant s.msize r.tag r.kind c reply)
      (bindable : ∀ f st, (s.finished r.key).bindingOf r.kind reply = some (f, st) →
        (s.finished r.key).Bindable f) :
      Completion s r (.ok c) (some reply)
        ((s.finished r.key).bindOpt ((s.finished r.key).bindingOf r.kind reply))

private theorem settle_completion (r : ServerRequest) (result : Result ServerCompletion)
    (hl : s.IsLive r.key) :
    s.Completion r result (some (settle (s.finished r.key) r result).1)
      (settle (s.finished r.key) r result).2 := by
  cases result with
  | error e => exact .failed e hl nofun
  | ok c =>
    have ho : (s.finished r.key).ApplyOutcome r.tag r.kind c
        ((applyCompletion r.tag r.kind c).exec (s.finished r.key)).1
        ((applyCompletion r.tag r.kind c).exec (s.finished r.key)).2 :=
      wp_applyCompletion r.tag r.kind c
    unfold settle
    dsimp only
    generalize (applyCompletion r.tag r.kind c).exec (s.finished r.key) = out at ho ⊢
    obtain ⟨outcome, s'⟩ := out
    cases outcome with
    | error e =>
      obtain ⟨rfl, hc⟩ := ho
      exact .failed e hl fun _ _ => hc
    | ok reply =>
      obtain ⟨⟨variant, hv, ha⟩, rfl, hb⟩ := ho
      exact .answered hl hv ha hb

/-- Completion is exhausted by the cases of `Completion`. -/
theorem completion (s : Session) (r : ServerRequest) (result : Result ServerCompletion) :
    s.Completion r result (complete s r result).1 (complete s r result).2 := by
  by_cases hl : s.IsLive r.key
  · have hf : s.requests.finish r.key =
        (true, { s.requests with live := s.requests.live.erase r.key.tag }) := by
      rw [RequestTable.finish, hl]
      exact if_pos rfl
    unfold complete
    rw [hf]
    exact settle_completion r result hl
  · have hf : s.requests.finish r.key = (false, s.requests) := by
      unfold RequestTable.finish
      split
      · next current hc =>
        rw [if_neg]
        intro hs
        exact hl (hs ▸ hc)
      · rfl
    unfold complete
    rw [hf]
    exact .stale hl

/-- A completion fails because of a fid only if its request could not bind. -/
theorem Completion.foreign_of_ready {r : ServerRequest} {ename : Bytes}
    (h : s.Completion r (.ok c) (some (.error tag ename)) s')
    (ready : (s.finished r.key).Ready r.kind) : ename ∉ fidErrors := by
  generalize hrs : (Except.ok c : Result ServerCompletion) = result at h
  generalize hr : some (RMessage.error tag ename) = reply at h
  cases h with
  | stale dead => cases hr
  | failed e live cause =>
    rw [errorReply_eq] at hr
    cases hr
    rcases cause c hrs.symm with hf | hrd
    · exact hf
    · exact absurd ready hrd
  | answered live negotiated answers bindable =>
    cases hr
    exact absurd rfl (answers.ne_error tag ename)

end Session

end R9P.Server
