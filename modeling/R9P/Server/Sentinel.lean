import R9P.Server.Guarantees

/-!
# The fid that stands for none

Library `Server`. `NOFID` is a fid like any other to the tables of a session. It is refused as the
`afid` of a `Tauth`, but neither as the fid of a `Tattach` nor as the new fid of a `Twalk`.
-/

namespace R9P.Server
open Base Wire

/-- The client does not ask for `NOFID` as a new fid. -/
def Sparing : Call → Prop
  | .admitted (.attach _ fid _ _ _) _ => fid ≠ NOFID
  | .admitted (.walk _ _ newfid _) _ => newfid ≠ NOFID
  | _ => True

/-- The request lays no claim on `NOFID`, neither as a fid nor as a new one. -/
def ServerRequestKind.Spares (kind : ServerRequestKind) : Prop :=
  NOFID ∉ kind.claims.map Prod.fst

namespace Session

variable {s s' : Session} {key : RequestKey} {kind : ServerRequestKind} {m : TMessage}

/-- `NOFID` is neither bound nor reserved. -/
def Spares (s : Session) : Prop := NOFID ∉ s.fids ∧ s.entry NOFID = .default

theorem Spares.finished (hs : s.Spares) (key : RequestKey) : (s.finished key).Spares := by
  refine ⟨hs.1, (entry_releaseReservations ..).trans ?_⟩
  change (s.entry NOFID).release key = _
  rw [hs.2]
  rfl

theorem Acquires.spares {claims : List (Fid × Claim)} (h : Acquires key s claims s')
    (hc : NOFID ∉ claims.map Prod.fst) (hs : s.Spares) : s'.Spares := by
  induction h with
  | nil => exact hs
  | cons first rest ih =>
    obtain ⟨hne, hc⟩ := not_or.mp (mt List.mem_cons.mpr hc)
    refine ih hc ⟨?_, ?_⟩
    · rw [first.mem_fids_ne hne]
      exact hs.1
    · rw [first.entry_ne hne]
      exact hs.2

/-- A fid that is bound already is not `NOFID`. -/
theorem Permits.spares {event : ServerEvent} (h : s.Permits kind m) (hs : NOFID ∉ s.fids)
    (hm : Sparing (.admitted m event)) : kind.Spares := by
  unfold Permits at h
  grind [Sparing, ServerRequestKind.Spares, ServerRequestKind.claims,
    Std.ExtTreeMap.getElem?_eq_none]

theorem Admission.spares {event : ServerEvent} (h : s.Admission m event s') (hw : s.WF)
    (hm : Sparing (.admitted m event)) (hs : s.Spares) :
    s'.Spares ∧ ∀ r ∈ event.dispatched, r.kind.Spares := by
  cases h with
  | version message reset answer =>
    obtain ⟨_, _, _, _, rfl⟩ := reset_frame reset
    exact ⟨⟨Std.ExtTreeMap.not_mem_empty, by simp [entry]⟩, by rintro r ⟨⟩⟩
  | rejected e uses | refused e begins => exact ⟨hs, by rintro r ⟨⟩⟩
  | flushed begins old found =>
    refine ⟨?_, by rintro r ⟨⟩⟩
    rcases hw.cancel_eq with heq | ⟨key, -, -, heq⟩ <;> rw [heq]
    · exact hs
    · exact hs.finished key
  | dispatched begins permits acquires =>
    have hn := permits.spares hs.1 hm
    refine ⟨acquires.spares hn hs, ?_⟩
    rintro r ⟨⟩
    exact hn

/-- A completion binds what its request has claimed. -/
theorem bindingOf_mem {reply : RMessage} {f : Fid} {st : FidState}
    (h : s.bindingOf kind reply = some (f, st)) : f ∈ kind.claims.map Prod.fst := by
  unfold bindingOf ServerRequestKind.readEnd ServerRequestKind.binding at h
  grind [ServerRequestKind.claims]

theorem Completion.spares {r : ServerRequest} {result : Result ServerCompletion}
    {reply : Option RMessage} (h : s.Completion r result reply s') (hn : r.kind.Spares)
    (hs : s.Spares) : s'.Spares := by
  have hf := hs.finished r.key
  cases h with
  | stale dead => exact hs
  | failed e live cause => exact hf
  | @answered c message _ live negotiated answers bindable =>
    cases hb : (s.finished r.key).bindingOf r.kind message with
    | none => exact hf
    | some p =>
      refine ⟨fun hm => ?_, hf.2⟩
      rcases mem_bind.mp hm with heq | hm
      · exact hn (heq ▸ bindingOf_mem hb)
      · exact hf.1 hm

end Session

variable {config : ServerConfig} {history : List Call} {w : World}

/-- In every run whose clients do not ask for `NOFID`, it is not bound, not reserved and not claimed
by a request that was dispatched. -/
theorem nofid_never_live (run : ((server config).restrict fun _ => Sparing).Run history w) :
    NOFID ∉ w.session.fids ∧ w.session.entry NOFID = .default ∧
      ∀ r ∈ w.issued, r.kind.Spares := by
  refine and_assoc.mp (run.invariant
    (I := fun _ w => w.session.Spares ∧ ∀ r ∈ w.issued, r.kind.Spares) ?_ ?_)
  · rintro w rfl
    exact ⟨⟨Std.ExtTreeMap.not_mem_empty, by simp [World.new, Session.entry, Session.new]⟩, nofun⟩
  · rintro _ w call w' hr ⟨hs, hi⟩ ⟨hc, hst⟩
    cases hst with
    | admits m =>
      have hw := (World.sound hr.of_restrict).wf
      obtain ⟨hs', hd⟩ := (hw.admission m).spares hw hc hs
      refine ⟨hs', fun r hm => ?_⟩
      rcases World.mem_issued_onAdmit hm with heq | hm
      · exact hd r (by rw [heq]; rfl)
      · exact hi r hm
    | completes r result issued =>
      exact ⟨(w.session.completion r result).spares (hi r issued) hs, hi⟩

theorem nofid_never_live_attaching : NOFID ∉ attaching.session.fids := by
  refine (nofid_never_live (.next (.next (.start rfl) ⟨?_, .admits plainVersion⟩)
    ⟨?_, .admits (attachAt 1 0)⟩)).1
  · trivial
  · exact nofun

/-- An attach to `NOFID` binds it. -/
theorem nofid_attached : ∃ history w, (server .default).Run history w ∧ NOFID ∈ w.session.fids :=
  ⟨_, _, .next (.next (.next (.start rfl) (.admits plainVersion)) (.admits (attachAt 1 NOFID)))
    (.completes ⟨⟨1, 1⟩, .attach NOFID NOFID [] []⟩ (.ok (.attach ⟨0x80, 0, 1⟩))
      (by decide +kernel)), by decide +kernel⟩

end R9P.Server
