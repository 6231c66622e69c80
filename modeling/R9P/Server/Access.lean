import R9P.Server.History

/-!
# Access control over a run

Library `Server`. A fid is read or written only after an Open or Create that permits it and
that nothing has undone since, a directory only from the start or from where the last read
of it stopped, and an open fid is not walked, opened or created in again.
-/

namespace R9P.Server
open Base Wire

/-- The fid that a successful Open or Create bound, with its qid and mode. -/
def Call.opened : Call → Option (Fid × Qid × UInt8)
  | completed ⟨_, .open fid _ mode⟩ _ (some (.open _ qid _)) => some (fid, qid, mode)
  | completed ⟨_, .create fid _ _ _ mode⟩ _ (some (.create _ qid _)) => some (fid, qid, mode)
  | _ => none

variable {config : ServerConfig} {history : List Call} {w : World} {call : Call} {f : Fid}

/-! ### Who opened a fid -/

variable {r : ServerRequest} {st : FidState} {mode : UInt8}

-- Besides Open and Create only an authentication opens, and its qid says so.
private theorem opened_of_answers {variant : Variant} {msize : UInt32} {c : ServerCompletion}
    {reply : RMessage} (han : Answers variant msize r.tag r.kind c reply)
    (hb : r.kind.binding reply = some (f, st)) (hm : st.openMode = some mode)
    (ha : st.qid.isAuth = false) :
    Call.opened (.completed r (.ok c) (some reply)) = some (f, st.qid, mode) := by
  obtain ⟨key, kind⟩ := r
  dsimp only at han hb
  unfold ServerRequestKind.binding at hb
  split at hb
  · cases hb
    cases c with
    | auth qid =>
      obtain ⟨hi, -, hr⟩ := han
      cases hr
      exact absurd (hi.symm.trans ha) (by simp)
    | _ => exact han.elim
  · cases hb
    cases hm
  · -- A walk leaves the fid it binds closed.
    split at hb
    · split at hb
      · cases hb
      · cases hb
        cases hm
    · split at hb
      · obtain ⟨_, -, hx⟩ := Option.map_eq_some_iff.mp hb
        cases hx
        cases hm
      · cases hb
  · cases hb
    cases hm
    rfl
  · cases hb
    cases hm
    rfl
  · cases hb

/-- A binding that leaves a fid open, other than by authentication, is an Open or Create. -/
theorem opened_of_binding (run : (server config).Run history w) (hmm : call ∈ history)
    (hb : call.binding = some (f, st)) (hm : st.openMode = some mode) (ha : st.qid.isAuth = false) :
    call.opened = some (f, st.qid, mode) := by
  revert hmm
  apply run.invariant
    (I := fun history _ => call ∈ history → call.opened = some (f, st.qid, mode))
  · intro _ _ hmm
    cases hmm
  · intro history w label w' _ ih hs hmm
    rcases List.mem_cons.mp hmm with hc | hmm
    · rw [hc] at hb ⊢
      cases hs with
      | admits m => cases hb
      | completes r result issued =>
        have hcm := w.session.completion r result
        generalize (complete w.session r result).1 = reply at hcm hb ⊢
        generalize (complete w.session r result).2 = s' at hcm
        cases hcm with
        | stale dead => cases hb
        | failed e live cause =>
          rw [errorReply_eq] at hb
          have hn := (binding_error r.kind r.tag e.message).1
          exact absurd (hn.symm.trans hb) (by simp)
        | answered live negotiated answers bindable =>
          exact opened_of_answers answers hb hm ha
    · exact ih hmm

/-! ### The checks of an admission -/

variable {offset : UInt64}

theorem validateRead_ok (h : validateRead st offset = .ok ()) (ha : st.qid.isAuth = false) :
    ∃ mode, st.openMode = some mode ∧ Mode.permitsRead mode = true ∧
      (st.qid.isDir = true → offset = 0 ∨ offset = st.directoryOffset) := by
  unfold validateRead at h
  rw [if_neg (by simp [ha])] at h
  cases hm : st.openMode with
  | none =>
    rw [hm] at h
    cases h
  | some mode =>
    rw [hm] at h
    dsimp only at h
    split at h
    · cases h
    · next hr =>
      split at h
      · cases h
      · next hof =>
        refine ⟨mode, rfl, by simpa using hr, fun hd => ?_⟩
        by_cases hz : offset = 0
        · exact .inl hz
        · right
          simpa [hd, hz] using hof

theorem validateWrite_ok (h : validateWrite st = .ok ()) (ha : st.qid.isAuth = false) :
    st.qid.isDir = false ∧ ∃ mode, st.openMode = some mode ∧ Mode.permitsWrite mode = true := by
  unfold validateWrite at h
  rw [if_neg (by simp [ha])] at h
  cases hm : st.openMode with
  | none =>
    rw [hm] at h
    cases h
  | some mode =>
    rw [hm] at h
    dsimp only at h
    split at h
    · cases h
    · next hw =>
      simp only [Bool.or_eq_true, Bool.not_eq_true', not_or, Bool.not_eq_true,
        Bool.not_eq_false] at hw
      exact ⟨hw.1, mode, rfl, hw.2⟩

theorem validateOpen_ok (h : validateOpen st mode = .ok ()) : st.openMode = none := by
  unfold validateOpen at h
  split at h
  · cases h
  · next hm => simpa using hm

theorem validateCreate_ok {perm : UInt32}
    (h : validateCreate st perm mode = .ok ()) : st.openMode = none := by
  unfold validateCreate at h
  split at h
  · cases h
  · next hm => simpa using hm

/-- The fid on which a Walk, Open or Create works. -/
def ServerRequestKind.unopened : ServerRequestKind → Option Fid
  | walk fid _ _ _ | .open fid _ _ | create fid _ _ _ _ => some fid
  | _ => none

variable {s : Session} {m : TMessage} {fid : Fid} {result : Result ServerCompletion}
  {earlier older : List Call}

theorem permits_read {qid : Qid} {count : UInt32} (h : s.Permits (.read fid qid offset count) m) :
    ∃ st, s.fids[fid]? = some st ∧ st.qid = qid ∧ validateRead st offset = .ok () := by
  cases m with
  | read tag fid' offset' count' =>
    obtain ⟨st, hst, hv, hk⟩ := h
    cases hk
    exact ⟨st, hst, rfl, hv⟩
  | _ => simp [Session.Permits] at h

theorem permits_write {qid : Qid} {data : Bytes} (h : s.Permits (.write fid qid offset data) m) :
    ∃ st, s.fids[fid]? = some st ∧ st.qid = qid ∧ validateWrite st = .ok () := by
  cases m with
  | write tag fid' offset' data' =>
    obtain ⟨st, hst, -, hv, hk⟩ := h
    cases hk
    exact ⟨st, hst, rfl, hv⟩
  | _ => simp [Session.Permits] at h

theorem permits_unopened {kind : ServerRequestKind}
    (h : s.Permits kind m) (hfd : kind.unopened = some fid) :
    ∃ st, s.fids[fid]? = some st ∧ st.openMode = none := by
  cases kind with
  | walk fid' newfid start wnames =>
    cases hfd
    cases m with
    | walk tag fid' newfid' wnames' =>
      obtain ⟨st, hst, -, hm, -, hk⟩ := h
      cases hk
      exact ⟨st, hst, hm⟩
    | _ => simp [Session.Permits] at h
  | «open» fid' qid mode =>
    cases hfd
    cases m with
    | «open» tag fid' mode' =>
      obtain ⟨st, hst, hv, hk⟩ := h
      cases hk
      exact ⟨st, hst, validateOpen_ok hv⟩
    | _ => simp [Session.Permits] at h
  | create fid' qid name perm mode =>
    cases hfd
    cases m with
    | create tag fid' name' perm' mode' =>
      obtain ⟨st, hst, hv, hk⟩ := h
      cases hk
      exact ⟨st, hst, validateCreate_ok hv⟩
    | _ => simp [Session.Permits] at h
  | _ => cases hfd

/-! ### Reads of one open -/

/-- An answered request was live when it was completed. -/
theorem live_of_some
    {reply : RMessage} (h : (complete s r result).1 = some reply) : s.IsLive r.key := by
  by_contra dead
  rw [complete_eq_of_dead dead] at h
  cases h

-- The completion that bound a fid ended every hold that another request had on it.
private theorem not_held_across {bound : Call}
    (run : (server config).Run (earlier ++ bound :: older) w)
    (hg : w.generations < 2 ^ 64) (hb : bound.binding = some (f, st))
    (hd : .admitted m (.dispatch r) ∈ older)
    (he : Call.readEndOf f (.completed r result (complete w.session r result).1) =
      some offset) : False := by
  have hl : w.session.IsLive r.key ∧ (f, .held) ∈ r.kind.claims := by
    cases hr : (complete w.session r result).1 with
    | none =>
      rw [hr] at he
      cases he
    | some reply =>
      rw [hr] at he
      obtain ⟨p, hen, hp⟩ := Option.bind_eq_some_iff.mp he
      split at hp
      · next hf =>
        refine ⟨live_of_some hr, ?_⟩
        rw [← hf]
        exact Session.claims_of_readEnd hen
      · cases hp
  -- The read was live when the binding was made, and still after it.
  obtain ⟨w₂, hrn₂, hg₂, hl₂⟩ := run.earlier
    (P := fun w => w.generations < 2 ^ 64 ∧ w.session.IsLive r.key) ⟨hg, hl.1⟩ (by
      intro newer w label w' hrn hs hlr
      have hg := Nat.lt_of_le_of_lt (World.generations_mono hs) hlr.1
      have ht := World.tracked hrn hg
      have issued : r ∈ w.issued := World.issued_of_dispatch hrn
        (List.mem_append_right _ (List.mem_cons_of_mem _ hd))
      refine ⟨hg, ?_⟩
      by_contra dead
      exact World.dead_step ht (World.sound hrn).wf hs (ht.older r issued) dead hlr.2)
  cases hrn₂ with
  | next hrn₀ hs =>
    rename_i w₀
    have hg₀ := Nat.lt_of_le_of_lt (World.generations_mono hs) hg₂
    have ht := World.tracked hrn₀ hg₀
    have issued := World.issued_of_dispatch hrn₀ hd
    have hl₀ : w₀.session.IsLive r.key := by
      by_contra dead
      exact World.dead_step ht (World.sound hrn₀).wf hs (ht.older r issued) dead hl₂
    have hh := (ht.backed r issued hl₀ f .held hl.2).1
    cases hs with
    | admits m' => cases hb
    | completes r' result' issued' =>
      -- Both requests hold the fid alone, so they have one key, which is dead afterwards.
      have hk : r'.key = r.key := by
        cases hr : (complete w₀.session r' result').1 with
        | none =>
          rw [hr] at hb
          cases hb
        | some reply =>
          rw [hr] at hb
          have hbc := ht.backed r' issued' (live_of_some hr)
          rcases Session.claims_of_binding hb with hc | hc
          · have hfr : _ = _ := hbc f .fresh hc
            rw [hh] at hfr
            exact absurd (congrArg FidReservation.newFid (Option.some.inj hfr)) (by simp)
          · have hh' := (hbc f .held hc).1
            rw [hh] at hh'
            exact (congrArg FidReservation.request (Option.some.inj hh')).symm
      rw [← hk] at hl₂
      exact (w₀.session.completion r' result').dead hl₂

/-- A directory read that ends after its fid was bound was dispatched after that: before, the
binding request and the read would both have held the fid. -/
theorem read_since_binding {ended bound : Call}
    (run : (server config).Run (ended :: (earlier ++ bound :: older)) w)
    (hg : w.generations < 2 ^ 64) (hb : bound.binding = some (f, st))
    (he : ended.readEndOf f = some offset) :
    ∃ m r result reply, ended = .completed r result reply ∧
      .admitted m (.dispatch r) ∈ earlier := by
  cases run with
  | next hrn hs =>
    rename_i w₁
    have hg₁ := Nat.lt_of_le_of_lt (World.generations_mono hs) hg
    cases hs with
    | admits m => cases he
    | completes r result issued =>
      obtain ⟨m, hd⟩ := World.dispatch_of_issued hrn issued
      refine ⟨m, r, result, _, rfl, ?_⟩
      rcases List.mem_append.mp hd with hmm | hmm
      · exact hmm
      · rcases List.mem_cons.mp hmm with hc | hmm
        · -- The binding is a completion, not a dispatch.
          rw [← hc] at hb
          cases hb
        · exact (not_held_across hrn hg₁ hb hmm he).elim

/-! ### Access -/

/-- In every run, a Read or Write is dispatched only for a fid whose last binding was an Open
or Create that permits it, a directory is read from the start or from where the last read on
that open ended, and a Walk, Open or Create is dispatched only for a fid that is not open. -/
theorem access_control (run : (server config).Run history w) {m : TMessage} {r : ServerRequest}
    (dispatched : (admitMessage w.session m).1 = .dispatch r) :
    (∀ fid qid offset count, r.kind = .read fid qid offset count → qid.isAuth = false →
      ∃ newer opening older mode, history = newer ++ opening :: older ∧
        opening.opened = some (fid, qid, mode) ∧ Mode.permitsRead mode = true ∧
        (∀ call ∈ newer, call.rebinds fid = false) ∧
        (qid.isDir = true → offset = 0 ∨ ∃ later ended earlier, newer = later ++ ended :: earlier ∧
            ended.readEndOf fid = some offset ∧
            (∀ call ∈ later, call.readEndOf fid = none) ∧
            (w.generations < 2 ^ 64 → ∃ m' r' result reply, ended = .completed r' result reply ∧
              .admitted m' (.dispatch r') ∈ earlier))) ∧
    (∀ fid qid offset data, r.kind = .write fid qid offset data → qid.isAuth = false →
      qid.isDir = false ∧
      ∃ newer opening older mode, history = newer ++ opening :: older ∧
        opening.opened = some (fid, qid, mode) ∧ Mode.permitsWrite mode = true ∧
        (∀ call ∈ newer, call.rebinds fid = false)) ∧
    (∀ fid, r.kind.unopened = some fid →
      ∃ newer binder older qid, history = newer ++ binder :: older ∧
        binder.binding = some (fid, .new qid) ∧ ∀ call ∈ newer, call.rebinds fid = false) := by
  have had := (World.sound run).wf.admission m
  rw [dispatched] at had
  have hp : w.session.Permits r.kind m := by
    generalize (admitMessage w.session m).2 = s' at had
    cases had with
    | dispatched begins permits acquires => exact permits
  refine ⟨?_, ?_, ?_⟩
  · intro fid qid offset count hk ha
    rw [hk] at hp
    obtain ⟨st, hst, hq, hv⟩ := permits_read hp
    rw [← hq] at ha ⊢
    obtain ⟨mode, hm, hr, hd⟩ := validateRead_ok hv ha
    rw [World.fids_eq_remembered run] at hst
    obtain ⟨newer, opening, older, hh, hb, hsn, hof⟩ := remembered_eq_some hst
    have hmm : opening ∈ history := by
      rw [hh]
      exact List.mem_append_right _ List.mem_cons_self
    have ho := opened_of_binding run hmm hb hm ha
    refine ⟨newer, opening, older, mode, hh, ho, hr, hsn, fun hi => ?_⟩
    rcases hd hi with hz | hl
    · exact .inl hz
    · cases hf : newer.findSome? (·.readEndOf fid) with
      | none =>
        left
        rw [hl, hof, hf]
        rfl
      | some offset' =>
        right
        have hsm : offset' = offset := by
          rw [hl, hof, hf]
          rfl
        rw [hsm] at hf
        obtain ⟨later, ended, earlier, hn, he, hlr⟩ :=
          List.findSome?_eq_some_iff.mp hf
        refine ⟨later, ended, earlier, hn, he, hlr, fun hg => ?_⟩
        rw [hh, hn, List.append_assoc, List.cons_append] at run
        obtain ⟨w', hrn, hg'⟩ := run.earlier (P := fun w => w.generations < 2 ^ 64) hg
          fun _ _ _ _ _ hs hlt => Nat.lt_of_le_of_lt (World.generations_mono hs) hlt
        exact read_since_binding hrn hg' hb he
  · intro fid qid offset data hk ha
    rw [hk] at hp
    obtain ⟨st, hst, hq, hv⟩ := permits_write hp
    rw [← hq] at ha ⊢
    obtain ⟨hfl, mode, hm, hw⟩ := validateWrite_ok hv ha
    rw [World.fids_eq_remembered run] at hst
    obtain ⟨newer, opening, older, hh, hb, hsn, -⟩ := remembered_eq_some hst
    have hmm : opening ∈ history := by
      rw [hh]
      exact List.mem_append_right _ List.mem_cons_self
    have ho := opened_of_binding run hmm hb hm ha
    exact ⟨hfl, newer, opening, older, mode, hh, ho, hw, hsn⟩
  · intro fid hfd
    obtain ⟨st, hst, hm⟩ := permits_unopened hp hfd
    rw [World.fids_eq_remembered run] at hst
    obtain ⟨newer, binder, older, hh, hb, hsn, -⟩ := remembered_eq_some hst
    refine ⟨newer, binder, older, st.qid, hh, ?_, hsn⟩
    rw [hb, hm]
    rfl

/-- A root directory. -/
def rootQid : Qid := ⟨0x80, 0, 1⟩

/-- Fid 0 attached to the root directory and opened for reading. -/
def rootOpen : World :=
  ((attaching.onComplete ⟨⟨1, 1⟩, .attach 0 NOFID [] []⟩ (.ok (.attach rootQid))).onAdmit
    (.open 2 0 0)).onComplete ⟨⟨2, 2⟩, .open 0 rootQid 0⟩ (.ok (.open ⟨rootQid, 0⟩))

theorem run_rootOpen : ∃ r result reply history, (server .default).Run
    (.completed r result reply :: history) rootOpen ∧ reply = some (.open 2 rootQid 0) :=
  ⟨_, _, _, _, .next (.next (.next (.next (.next (.start rfl) (.admits plainVersion))
    (.admits (attachAt 1 0))) (.completes ⟨⟨1, 1⟩, .attach 0 NOFID [] []⟩ _ (by decide +kernel)))
    (.admits (.open 2 0 0))) (.completes ⟨⟨2, 2⟩, .open 0 rootQid 0⟩ _ (by decide +kernel)),
    by decide +kernel⟩

theorem access_control_rootOpen : ∃ history newer opening older mode,
    (server .default).Run history rootOpen ∧ history = newer ++ opening :: older ∧
      opening.opened = some (0, rootQid, mode) ∧ Mode.permitsRead mode = true := by
  obtain ⟨_, _, _, _, hrn, _⟩ := run_rootOpen
  have hr : (admitMessage rootOpen.session (.read 3 0 0 100)).1 =
      .dispatch ⟨⟨3, 3⟩, .read 0 rootQid 0 100⟩ := by decide +kernel
  obtain ⟨newer, opening, older, mode, hh, ho, hp, -⟩ :=
    (access_control hrn hr).1 0 rootQid 0 100 rfl (by decide)
  exact ⟨_, newer, opening, older, mode, hrn, hh, ho, hp⟩

/-- At the end of the generations the root is attached and opened. -/
def World.opensRoot (w : World) : World :=
  (((w.onAdmit (attachAt 9 0)).onComplete (lateAttach 9 0) (.ok (.attach rootQid))).onAdmit
    (.open 2 0 0)).onComplete ⟨⟨2, 0xffffffffffffffff⟩, .open 0 rootQid 0⟩
    (.ok (.open ⟨rootQid, 0⟩))

/-- A read of the root is under way when the session begins again and opens the root again, and
its key goes to an attach. -/
def reopened : World :=
  ((((World.versioned .default 8192 (utf8 "9P2000") (2 ^ 64 - 1)).opensRoot.onAdmit
    (.read 3 0 0 100)).onAdmit plainVersion).opensRoot).onAdmit (attachAt 3 5)

/-- The read ends with one entry. -/
def lateRead : ServerRequest := ⟨⟨3, 0xffffffffffffffff⟩, .read 0 rootQid 0 100⟩

def oneEntry : Result ServerCompletion :=
  .ok (.read (.directory [⟨0, 0, ⟨0, 0, 2⟩, 0, 0, 0, 0, utf8 "a", [], [], []⟩]))

/-- A counter at its end lets a read of an earlier open say where the next one of this open may
start, though no read of this open was dispatched. -/
theorem read_goes_on_at_the_end : ∃ reply event opening older,
    (server .default).Run (.completed lateRead oneEntry reply :: .admitted (attachAt 3 5) event ::
      opening :: older) (reopened.onComplete lateRead oneEntry) ∧
    opening.opened = some (0, rootQid, 0) ∧
    (admitMessage (reopened.onComplete lateRead oneEntry).session (.read 4 0 50 100)).1 =
      .dispatch ⟨⟨4, 0xffffffffffffffff⟩, .read 0 rootQid 50 100⟩ := by
  obtain ⟨history, hr⟩ := World.run_versioned .default NOTAG 8192 (utf8 "9P2000") (2 ^ 64 - 1)
  refine ⟨_, _, _, _, .next (.next (.next (.next (.next (.next (.next (.next (.next (.next (.next
    (.next hr (.admits (attachAt 9 0))) (.completes (lateAttach 9 0) _ ?_)) (.admits (.open 2 0 0)))
    (.completes _ _ ?_)) (.admits (.read 3 0 0 100))) (.admits plainVersion))
    (.admits (attachAt 9 0))) (.completes (lateAttach 9 0) _ ?_)) (.admits (.open 2 0 0)))
    (.completes _ _ ?_)) (.admits (attachAt 3 5))) (.completes lateRead oneEntry ?_), ?_, ?_⟩
  all_goals decide +kernel

end R9P.Server
