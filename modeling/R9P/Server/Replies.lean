import R9P.Server.Guarantees

/-!
# Replies over a run

Library `Server`. A key that has been handed out and is not live never becomes live again,
so a request is answered at most once, and not at all once it was flushed or its session
was reset, whatever has become of its tag since.
-/

namespace R9P.Server
open Base Wire

namespace Call

/-- The call answered the request with this key. -/
def answers (key : RequestKey) : Call → Bool
  | completed request _ reply => request.key = key && reply.isSome
  | admitted .. => false

/-- The call took the tag from whatever request held it. -/
def cancels (tag : Tag) : Call → Bool
  | admitted (.version ..) _ => true
  | admitted (.flush _ oldtag) (.flush ..) => oldtag = tag
  | _ => false

/-- Only a version request or an answered flush cancels. -/
theorem cancels_iff {tag : Tag} {call : Call} : call.cancels tag = true ↔
    (∃ t msize version event, call = admitted (.version t msize version) event) ∨
      ∃ t reply outcome, call = admitted (.flush t tag) (.flush reply outcome) := by
  unfold cancels
  split
  · simp
  · simp [eq_comm]
  · next hv hf =>
    simp only [Bool.false_eq_true, false_iff]
    rintro (⟨t, msize, version, event, hcl⟩ | ⟨t, reply, outcome, hcl⟩)
    · exact hv _ _ _ _ hcl
    · exact hf _ _ _ _ hcl

end Call

variable {config : ServerConfig} {history : List Call} {w w' : World} {call : Call}
  {key : RequestKey} {r : ServerRequest}

/-- A request that is not live completes to nothing. -/
theorem complete_eq_of_dead {s : Session} (dead : ¬ s.IsLive r.key)
    (result : Result ServerCompletion) : complete s r result = (none, s) := by
  have hc := s.completion r result
  generalize complete s r result = out at hc ⊢
  obtain ⟨reply, s'⟩ := out
  cases hc with
  | stale => rfl
  | failed e live cause | answered live negotiated answers bindable => exact absurd live dead

namespace World

/-- A key handed out before and not live stays so. -/
theorem dead_step (ht : w.Tracked) (hs : w.session.WF) (hst : w.Step call w')
    (hu : key.generation.toNat < w.generations) (dead : ¬ w.session.IsLive key) :
    ¬ w'.session.IsLive key := by
  intro hl
  cases hst with
  | admits m =>
    have ha := hs.admission m
    apply dead
    apply ha.live_before hs hl
    intro r hn hsm
    rw [hn] at ha
    rw [hsm, (dispatched_key ha).1, Session.nextKey, ht.counted] at hu
    exact Nat.lt_irrefl _ hu
  | completes r result issued => exact dead ((w.session.completion r result).live_before hl)

/-- After a call that cancels a tag, no request with that tag is live. -/
theorem dead_of_cancels (hs : w.session.WF) (hst : w.Step call w')
    (hc : call.cancels key.tag = true) : ¬ w'.session.IsLive key := by
  intro hl
  cases hst with
  | completes r result issued => cases hc
  | admits m =>
    have ha := hs.admission m
    change (admitMessage w.session m).2.IsLive key at hl
    generalize (admitMessage w.session m).1 = event at ha hc
    generalize (admitMessage w.session m).2 = s' at ha hl
    rcases Call.cancels_iff.mp hc with ⟨_, _, _, _, hcl⟩ | ⟨_, _, _, hcl⟩
    · cases hcl
      exact (ha.version_resets rfl).2 key hl
    · cases hcl
      cases ha with
      | flushed begins old found => exact (Session.isLive_cancel.mp hl).1 rfl

section
variable (run : (server config).Run history w)
include run

/-- A dispatch of the past is among the requests issued. -/
theorem issued_of_dispatch {m : TMessage} (hm : .admitted m (.dispatch r) ∈ history) :
    r ∈ w.issued := by
  revert hm
  apply run.invariant
    (I := fun history w => .admitted m (.dispatch r) ∈ history → r ∈ w.issued)
  · intro _ _ hm
    cases hm
  · intro history w call w' _ ih hst hm
    rcases List.mem_cons.mp hm with hcl | hm
    · cases hst with
      | admits m' =>
        have he : (admitMessage w.session m').1 = .dispatch r :=
          (Call.admitted.inj hcl).2.symm
        change r ∈ (admitMessage w.session m').1.dispatched.toList ++ w.issued
        rw [he]
        exact List.mem_cons_self
      | completes r' result issued => cases hcl
    · have ho := ih hm
      cases hst with
      | admits m' => exact List.mem_append_right _ ho
      | completes r' result issued => exact ho

/-- Every request issued was dispatched in the past. -/
theorem dispatch_of_issued (issued : r ∈ w.issued) : ∃ m, .admitted m (.dispatch r) ∈ history := by
  revert issued
  apply run.invariant
    (I := fun history w => r ∈ w.issued → ∃ m, .admitted m (.dispatch r) ∈ history)
  · intro w hw issued
    rw [hw] at issued
    cases issued
  · intro history w call w' _ ih hst issued
    have ho (issued : r ∈ w.issued) : ∃ m, .admitted m (.dispatch r) ∈ call :: history := by
      obtain ⟨m, hm⟩ := ih issued
      exact ⟨m, List.mem_cons_of_mem _ hm⟩
    cases hst with
    | admits m' =>
      rcases mem_issued_onAdmit issued with hn | issued
      · rw [hn]
        exact ⟨m', List.mem_cons_self⟩
      · exact ho issued
    | completes r' result _ => exact ho issued

/-- A key with an answer is used up, not live, and has no other answer. -/
theorem answered_once (hg : w.generations < 2 ^ 64) (key : RequestKey) :
    history.countP (·.answers key) ≤ 1 ∧ (0 < history.countP (·.answers key) →
        key.generation.toNat < w.generations ∧ ¬ w.session.IsLive key) := by
  revert hg
  apply run.invariant (I := fun history w => w.generations < 2 ^ 64 →
    history.countP (·.answers key) ≤ 1 ∧ (0 < history.countP (·.answers key) →
      key.generation.toNat < w.generations ∧ ¬ w.session.IsLive key))
  · intro _ _ _
    exact ⟨Nat.zero_le 1, fun h => absurd h (Nat.lt_irrefl 0)⟩
  · intro history w call w' hr ih hst hg
    have hm := generations_mono hst
    have hb := Nat.lt_of_le_of_lt hm hg
    have ht := tracked hr hb
    have hs := (sound hr).wf
    obtain ⟨hon, hu⟩ := ih hb
    rw [List.countP_cons]
    by_cases ha : call.answers key = true
    · -- The answered request was live, so this is its first answer.
      rw [if_pos ha]
      cases hst with
      | admits m => cases ha
      | completes r result issued =>
        obtain ⟨hk, hsm⟩ : r.key = key ∧
            (Server.complete w.session r result).1.isSome = true := by
          simpa [Call.answers] using ha
        have hl : w.session.IsLive key := by
          by_contra dead
          rw [← hk] at dead
          rw [complete_eq_of_dead dead] at hsm
          cases hsm
        have hz : history.countP (·.answers key) = 0 := by
          by_contra hne
          exact (hu (Nat.pos_of_ne_zero hne)).2 hl
        rw [hz]
        refine ⟨Nat.le_refl 1, fun _ => ⟨?_, ?_⟩⟩
        · rw [← hk]
          exact ht.older r issued
        · rw [← hk]
          exact (w.session.completion r result).dead
    · rw [if_neg ha, Nat.add_zero]
      refine ⟨hon, fun hp => ?_⟩
      obtain ⟨ho, dead⟩ := hu hp
      exact ⟨Nat.lt_of_lt_of_le ho hm, dead_step ht hs hst ho dead⟩

/-- A request is dead once its tag was cancelled after its dispatch. -/
theorem dead_of_cancelled (hg : w.generations < 2 ^ 64) {newer older : List Call} {m : TMessage}
    (hh : history = newer ++ .admitted m (.dispatch r) :: older)
    (hcn : ∃ call ∈ newer, call.cancels r.tag = true) : ¬ w.session.IsLive r.key := by
  induction newer generalizing history w with
  | nil =>
    obtain ⟨_, hm, _⟩ := hcn
    cases hm
  | cons last newer ih =>
    rw [hh] at run
    cases run with
    | next hr hst =>
      rename_i w₀
      have hb := Nat.lt_of_le_of_lt (generations_mono hst) hg
      have hs := (sound hr).wf
      obtain ⟨call, hm, hc⟩ := hcn
      rcases List.mem_cons.mp hm with hl | hm
      · rw [hl] at hc
        exact dead_of_cancels hs hst hc
      · have ht := tracked hr hb
        have hi : r ∈ w₀.issued :=
          issued_of_dispatch hr (List.mem_append_right _ List.mem_cons_self)
        exact dead_step ht hs hst (ht.older r hi)
          (ih hr hb rfl ⟨call, hm, hc⟩)

end

end World

/-- No request is answered twice, and a request that was flushed or whose session was reset
completes to nothing and changes nothing. -/
theorem no_stale_reply (run : (server config).Run history w) (hgen : w.generations < 2 ^ 64)
    (r : ServerRequest) :
    history.countP (·.answers r.key) ≤ 1 ∧
    ∀ newer older m, history = newer ++ .admitted m (.dispatch r) :: older →
      (∃ call ∈ newer, call.cancels r.tag = true) →
      ∀ result, complete w.session r result = (none, w.session) := by
  refine ⟨(World.answered_once run hgen r.key).1, ?_⟩
  intro newer older m hh hcn result
  exact complete_eq_of_dead (World.dead_of_cancelled run hgen hh hcn) result

/-- The attach of fid 0 is flushed, and its tag goes to an attach of fid 5. -/
def reattaching : World := (attaching.onAdmit (.flush 2 1)).onAdmit (attachAt 1 5)

theorem no_stale_reply_reattaching :
    complete reattaching.session ⟨⟨1, 1⟩, .attach 0 NOFID [] []⟩ (.ok (.attach ⟨0x80, 0, 1⟩)) =
      (none, reattaching.session) :=
  (no_stale_reply
    (.next (.next (.next (.next (.start rfl) (.admits plainVersion)) (.admits (attachAt 1 0)))
      (.admits (.flush 2 1))) (.admits (attachAt 1 5)))
    (by decide +kernel) ⟨⟨1, 1⟩, .attach 0 NOFID [] []⟩).2
    [.admitted (attachAt 1 5) (.dispatch ⟨⟨1, 3⟩, .attach 5 NOFID [] []⟩),
      .admitted (.flush 2 1) (.flush (.flush 2) (.cancelled ⟨1, 1⟩))]
    [.admitted plainVersion (.reply (.version NOTAG 8192 (utf8 "9P2000")))]
    (attachAt 1 0) (by decide +kernel) (by decide +kernel) _

end R9P.Server
