import R9P.Server.Replies

/-!
# The fid table as a function of the past

Library `Server`. `remembered` reads off the history of a run what each fid stands for: the last
call that bound it decides, unless a clunk, a remove or a version request came after, and
the directory reads since then move its offset. The session agrees with it in every run,
so a check against the fid table is a check against the past.
-/

namespace R9P.Server
open Base Wire
open ServerRequestKind (claims)

/-- A clunk or remove of the fid is dispatched. -/
def ServerEvent.retires (f : Fid) : ServerEvent → Bool
  | dispatch ⟨_, .clunk fid _⟩ => fid = f
  | dispatch ⟨_, .remove fid _⟩ => fid = f
  | _ => false

namespace Call

/-- The fid that a call newly bound, and to what. -/
def binding : Call → Option (Fid × FidState)
  | completed request _ (some reply) => request.kind.binding reply
  | _ => none

/-- The directory fid that a call read, and where the read ended. -/
def readEnd : Call → Option (Fid × UInt64)
  | completed request _ (some reply) => request.kind.readEnd reply
  | _ => none

/-- Where a directory read of this fid ended. -/
def readEndOf (f : Fid) (call : Call) : Option UInt64 :=
  call.readEnd.bind fun p => if p.1 = f then some p.2 else none

/-- The session was reset, or a clunk or remove of the fid was dispatched. -/
def unbinds (f : Fid) : Call → Bool
  | admitted message event => message.messageType = TVERSION || event.retires f
  | completed .. => false

/-- The call gave the fid a new meaning, or took it away. -/
def rebinds (f : Fid) (call : Call) : Bool := call.binding.any (·.1 = f) || call.unbinds f

/-- What a call makes of a fid. -/
def effect (f : Fid) (call : Call) (before : Option FidState) : Option FidState :=
  if call.unbinds f then none
  else
    match call.readEnd with
    | some (g, offset) => if g = f then before.map (·.withDirectoryOffset offset) else before
    | none =>
      match call.binding with
      | some (g, st) => if g = f then some st else before
      | none => before

end Call

/-- What a history makes of a fid. -/
def remembered (f : Fid) : List Call → Option FidState
  | [] => none
  | call :: older => call.effect f (remembered f older)

variable {config : ServerConfig} {history : List Call} {w w' : World} {call : Call} {f : Fid}
  {kind : ServerRequestKind}

/-! ### A call and the fid table -/

private theorem mem_claims_retired {g : Fid}
    (h : (g, Claim.retired) ∈ kind.claims) :
    ∃ qid, kind = .clunk g qid ∨ kind = .remove g qid := by
  cases kind with
  | clunk fid qid =>
    rw [claims, List.mem_singleton] at h
    cases h
    exact ⟨qid, .inl rfl⟩
  | remove fid qid =>
    rw [claims, List.mem_singleton] at h
    cases h
    exact ⟨qid, .inr rfl⟩
  | attach fid afid uname aname | walk fid newfid start wnames | read fid qid offset count
  | renameAt olddirfid olddirQid oldname newdirfid newdirQid newname =>
    rw [claims] at h
    split at h <;> simp at h
  | _ => simp [claims] at h

-- A dispatch unbinds a fid exactly when it retires it.
private theorem fids_of_acquires {key : RequestKey} {s s' : Session}
    (h : Session.Acquires key s kind.claims s') :
    s'.fids[f]? = if (ServerEvent.dispatch ⟨key, kind⟩).retires f then none else s.fids[f]? := by
  -- A clunk or remove has only the one claim.
  have hr {g : Fid} (h : Session.Acquires key s [(g, .retired)] s') :
      s'.fids[f]? = if decide (g = f) = true then none else s.fids[f]? := by
    cases h with
    | cons first rest =>
      cases rest
      rw [first.fids_eq, if_pos rfl, get_erase]
      simp
  by_cases ha : ∃ g, (g, Claim.retired) ∈ kind.claims
  · obtain ⟨g, hg⟩ := ha
    obtain ⟨qid, hk | hk⟩ := mem_claims_retired hg
    all_goals
      rw [hk] at h ⊢
      exact hr h
  · have hn : (ServerEvent.dispatch ⟨key, kind⟩).retires f = false := by
      cases kind with
      | clunk fid qid | remove fid qid =>
        exact absurd ⟨fid, by simp [claims]⟩ ha
      | _ => rfl
    have hc : ∀ p ∈ kind.claims, p.2 ≠ .retired := by
      intro p hp hp'
      exact ha ⟨p.1, hp' ▸ hp⟩
    rw [h.fids_eq hc, hn]
    rfl

theorem fids_cancel {s : Session} {oldtag : Tag} : (s.cancel oldtag).fids = s.fids := by
  unfold Session.cancel
  split
  · rfl
  · rfl

/-- Neither a read nor a binding is an answer to an error. -/
theorem binding_error (kind : ServerRequestKind) (tag : Tag) (ename : Bytes) :
    kind.binding (.error tag ename) = none ∧ kind.readEnd (.error tag ename) = none := by
  cases kind <;> exact ⟨rfl, rfl⟩

private theorem effect_admitted (m : TMessage) (event : ServerEvent) (before : Option FidState) :
    (Call.admitted m event).effect f before =
      if m.messageType = TVERSION ∨ event.retires f = true then none else before := by
  unfold Call.effect Call.unbinds
  simp [Call.readEnd, Call.binding]

/-- What a step does to a fid is what its call says. -/
theorem World.fids_step (hs : w.session.WF) (hsp : w.Step call w') :
    w'.session.fids[f]? = call.effect f w.session.fids[f]? := by
  cases hsp with
  | admits m =>
    have ha := hs.admission m
    rw [effect_admitted]
    show (admitMessage w.session m).2.fids[f]? = _
    generalize (admitMessage w.session m).1 = event at ha ⊢
    generalize (admitMessage w.session m).2 = s' at ha ⊢
    cases ha with
    | version message reset answer =>
      obtain ⟨_, _, _, _, heq⟩ := Session.reset_frame reset
      rw [heq]
      exact (if_pos (.inl rfl)).symm
    | rejected e uses =>
      have hm : m.messageType ≠ TVERSION := by
        intro hm
        cases m with
        | version => cases uses
        | _ => cases hm
      rw [if_neg]
      simp [hm, ServerEvent.retires]
    | refused e begins =>
      rw [if_neg]
      · rfl
      · simp [begins.not_version, ServerEvent.retires]
    | flushed begins old found =>
      rw [if_neg]
      · exact congrArg (fun fids => fids[f]?) fids_cancel
      · simp [begins.not_version, ServerEvent.retires]
    | dispatched begins permits acquires =>
      rw [fids_of_acquires acquires]
      simp only [begins.not_version, false_or]
      rfl
  | completes r result issued =>
    have hc := w.session.completion r result
    show (complete w.session r result).2.fids[f]? = _
    generalize (complete w.session r result).1 = reply at hc ⊢
    generalize (complete w.session r result).2 = s' at hc ⊢
    cases hc with
    | stale dead => rfl
    | failed e live cause =>
      obtain ⟨hb, he⟩ := binding_error r.kind r.tag e.message
      unfold Call.effect Call.readEnd Call.binding
      dsimp only
      rw [errorReply_eq, hb, he]
      rfl
    | answered live negotiated answers bindable =>
      rename_i c message variant
      have hf : (w.session.finished r.key).fids = w.session.fids := rfl
      unfold Call.effect Call.readEnd Call.binding Call.unbinds Session.bindingOf
      dsimp only
      rw [if_neg (by simp)]
      cases he : r.kind.readEnd message with
      | some p =>
        obtain ⟨g, offset⟩ := p
        dsimp only
        cases hst : w.session.fids[g]? with
        | none =>
          rw [hf, hst]
          by_cases hg : g = f
          · rw [← hg, if_pos rfl, hst]
            exact hst
          · rw [if_neg hg]
            rfl
        | some st =>
          rw [hf, hst]
          show (w.session.fids.insert g _)[f]? = _
          rw [get_insert]
          by_cases hg : g = f
          · rw [if_pos hg, if_pos hg, ← hg, hst]
            rfl
          · rw [if_neg hg, if_neg hg]
      | none =>
        dsimp only
        cases hb : r.kind.binding message with
        | none => rfl
        | some p =>
          show (w.session.fids.insert p.1 p.2)[f]? = _
          rw [get_insert]

/-- The fid table is what the history makes of it. -/
theorem World.fids_eq_remembered (run : (server config).Run history w) (f : Fid) :
    w.session.fids[f]? = remembered f history := by
  apply run.invariant (I := fun history w => w.session.fids[f]? = remembered f history)
  · intro w hw
    rw [hw]
    rfl
  · intro history w call w' hr ih hsp
    rw [World.fids_step (World.sound hr).wf hsp, ih]
    rfl

/-! ### The last binding -/

-- Every newly bound fid starts at offset 0.
private theorem binding_offset {st : FidState} (h : call.binding = some (f, st)) :
    st.directoryOffset = 0 := by
  unfold Call.binding at h
  split at h
  · unfold ServerRequestKind.binding at h
    split at h
    · cases h
      rfl
    · cases h
      rfl
    · split at h
      · split at h
        · cases h
        · cases h
          rfl
      · split at h
        · obtain ⟨_, -, hx⟩ := Option.map_eq_some_iff.mp h
          cases hx
          rfl
        · cases h
    · cases h
      rfl
    · cases h
      rfl
    · cases h
  · cases h

-- A directory read binds nothing anew.
private theorem binding_of_readEnd {p : Fid × UInt64} (h : call.readEnd = some p) :
    call.binding = none := by
  unfold Call.readEnd at h
  split at h
  · unfold ServerRequestKind.readEnd at h
    split at h
    · next hk => rw [Call.binding, hk]; rfl
    · cases h
  · cases h

/-- A bound fid was bound by some call and not rebound since, and its offset is where the
last directory read since then ended. -/
theorem remembered_eq_some {st : FidState} (h : remembered f history = some st) :
    ∃ newer bound older, history = newer ++ bound :: older ∧
      bound.binding = some (f, ⟨st.qid, st.openMode, 0⟩) ∧
      (∀ call ∈ newer, call.rebinds f = false) ∧
      st.directoryOffset = (newer.findSome? (·.readEndOf f)).getD 0 := by
  induction history generalizing st with
  | nil => cases h
  | cons call older ih =>
    -- Unless the call rebinds the fid, it is one more call since the last binding.
    have hk {st' : FidState} (hbf : remembered f older = some st')
        (hq : st.qid = st'.qid) (hmd : st.openMode = st'.openMode)
        (hr : call.rebinds f = false)
        (ho : st.directoryOffset = (call.readEndOf f).getD st'.directoryOffset) :
        ∃ newer bound older', call :: older = newer ++ bound :: older' ∧
          bound.binding = some (f, ⟨st.qid, st.openMode, 0⟩) ∧
          (∀ call ∈ newer, call.rebinds f = false) ∧
          st.directoryOffset = (newer.findSome? (·.readEndOf f)).getD 0 := by
      obtain ⟨newer, bound, older', hh, hbn, hs, hl⟩ := ih hbf
      refine ⟨call :: newer, bound, older', by rw [hh]; rfl, ?_, ?_, ?_⟩
      · rw [hq, hmd]
        exact hbn
      · intro call' hm
        rcases List.mem_cons.mp hm with hc | hm
        · rw [hc]
          exact hr
        · exact hs call' hm
      · rw [ho, List.findSome?_cons, hl]
        cases call.readEndOf f with
        | none | some offset => rfl
    rw [remembered, Call.effect] at h
    cases hu : call.unbinds f with
    | true =>
      rw [if_pos hu] at h
      cases h
    | false =>
      rw [if_neg (by simp [hu])] at h
      cases he : call.readEnd with
      | some p =>
        have hr : call.rebinds f = false := by
          rw [Call.rebinds, binding_of_readEnd he, hu]
          rfl
        rw [he] at h
        dsimp only at h
        by_cases hp : p.1 = f
        · rw [if_pos hp] at h
          obtain ⟨st', hbf, hst⟩ := Option.map_eq_some_iff.mp h
          apply hk hbf
          · rw [← hst]
            rfl
          · rw [← hst]
            rfl
          · exact hr
          · rw [← hst, Call.readEndOf, he, Option.bind_some, if_pos hp]
            rfl
        · rw [if_neg hp] at h
          apply hk h rfl rfl hr
          rw [Call.readEndOf, he, Option.bind_some, if_neg hp]
          rfl
      | none =>
        have hof : call.readEndOf f = none := by
          rw [Call.readEndOf, he]
          rfl
        rw [he] at h
        dsimp only at h
        cases hb : call.binding with
        | none =>
          rw [hb] at h
          apply hk h rfl rfl
          · rw [Call.rebinds, hb, hu]
            rfl
          · rw [hof]
            rfl
        | some p =>
          rw [hb] at h
          dsimp only at h
          by_cases hp : p.1 = f
          · rw [if_pos hp] at h
            have hst : p.2 = st := Option.some.inj h
            have hpr : p = (f, st) := by rw [← hp, ← hst]
            rw [hpr] at hb
            have hz := binding_offset hb
            refine ⟨[], call, older, rfl, ?_, ?_, hz⟩
            · rw [hb, ← hz]
            · intro call' hm
              cases hm
          · rw [if_neg hp] at h
            apply hk h rfl rfl
            · rw [Call.rebinds, hb, hu]
              simp [hp]
            · rw [hof]
              rfl

end R9P.Server
