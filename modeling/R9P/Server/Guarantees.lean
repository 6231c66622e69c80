import R9P.Server.Run

/-!
# What a server guarantees about its fids

Library `Server`. The representation invariant of a session over whole runs, and that a
request admitted is a request that can be completed: no completion fails because a fid was
taken meanwhile. Both rest on the generations being told apart; the second fails for a
counter that has come to its end.
-/

namespace R9P.Server
open Base Wire

variable {config : ServerConfig} {history : List Call} {w : World}

/-- In every state of every run the fids are within the limit, reservations are of one kind
and held by live requests, and nothing is left in a session without a version. -/
theorem session_invariant (run : (server config).Run history w) (hgen : w.generations < 2 ^ 64) :
    w.session.fidCount ≤ config.maxFids ∧
    (∀ f reservations, w.session.reservations[f]? = some reservations →
      reservations.isEmpty = false ∧
      ¬ (reservations.exclusive.isSome = true ∧ reservations.shared.Nonempty) ∧
      (∀ key, reservations.Names key → w.session.IsLive key) ∧
      (reservations.isNewFid = true → f ∉ w.session.fids) ∧
      (reservations.shared.Nonempty → f ∈ w.session.fids)) ∧
    (w.session.negotiated = false →
      w.session.fids = ∅ ∧ w.session.reservations = ∅ ∧ w.session.requests.live = ∅) := by
  have hsn := World.sound run
  refine ⟨?_, ?_, hsn.wf.idle⟩
  · rw [← hsn.config_eq]
    exact (World.tracked run hgen).room
  · intro f reservations hr
    have hwf := hsn.wf
    have he := Session.entry_eq_of_getElem? hr
    refine ⟨?_, ?_, ?_, ?_, ?_⟩
    · rw [Bool.eq_false_iff]
      intro hem
      exact hwf.nonempty f reservations hr (FidReservations.isEmpty_iff.mp hem)
    · intro hb
      have ha := hwf.apart f
      rw [he] at ha
      rcases ha with hn | hs
      · rw [hn] at hb
        cases hb.1
      · rw [hs] at hb
        exact Finset.not_nonempty_empty hb.2
    · intro key hk
      rw [← he] at hk
      exact hwf.named_live f key hk
    · intro hnw
      obtain ⟨key, hk⟩ := FidReservations.isNewFid_iff.mp hnw
      rw [← he] at hk
      exact hwf.fresh_unbound f key hk
    · intro hs
      rw [← he] at hs
      exact hwf.shared_bound f (Finset.nonempty_iff_ne_empty.mp hs)

/-- A version request that opens a plain session. -/
def plainVersion : TMessage := .version NOTAG 8192 (utf8 "9P2000")

/-- An attach without authentication. -/
def attachAt (tag : Tag) (fid : Fid) : TMessage := .attach tag fid NOFID [] []

/-- A session with a first attach in flight. -/
def attaching : World := ((World.new .default).onAdmit plainVersion).onAdmit (attachAt 1 0)

theorem session_invariant_attaching :
    attaching.session.fidCount = 1 ∧ attaching.session.fidCount ≤ 4096 :=
  ⟨by decide +kernel,
    (session_invariant (.next (.next (.start rfl) (.admits plainVersion)) (.admits (attachAt 1 0)))
      (by decide +kernel)).1⟩

/-- While the generations last, a live request finds the fids it is about to bind as it left
them, and completing it never fails because of a fid. -/
theorem completion_finds_fids (run : (server config).Run history w) (hgen : w.generations < 2 ^ 64)
    {r : ServerRequest} (issued : r ∈ w.issued) (live : w.session.IsLive r.key) :
    (∀ f, (f, .fresh) ∈ r.kind.claims →
      f ∉ w.session.fids ∧ (w.session.entry f).exclusive = some ⟨r.key, true⟩) ∧
    (∀ f, (f, .held) ∈ r.kind.claims →
      f ∈ w.session.fids ∧ (w.session.entry f).exclusive = some ⟨r.key, false⟩) ∧
    ∀ c tag ename, (complete w.session r (.ok c)).1 = some (.error tag ename) →
      ename ∉ fidErrors := by
  have hwf := (World.sound run).wf
  have ht := World.tracked run hgen
  have hb := ht.backed r issued live
  refine ⟨?_, ?_, ?_⟩
  · intro f hf
    have hh := hb f .fresh hf
    exact ⟨hwf.fresh_unbound f r.key hh, hh⟩
  · intro f hf
    have hh := hb f .held hf
    exact ⟨hh.2, hh.1⟩
  · intro c tag ename hr
    have hc := w.session.completion r (.ok c)
    rw [hr] at hc
    exact hc.foreign_of_ready (hwf.ready ht.room hb)

/-- A server for two fids. -/
def twoFids : ServerConfig := { ServerConfig.default with maxFids := 2 }

/-- The dispatched form of `attachAt`, once the counter stands still. -/
def lateAttach (tag : Tag) (fid : Fid) : ServerRequest :=
  ⟨⟨tag, 0xffffffffffffffff⟩, .attach fid NOFID [] []⟩

/-- With fid 9 bound, the attach of fid 0 is flushed and its key goes to a stat; fid 7 is
then promised the last place. -/
def promisedSeven : World :=
  (((((World.versioned twoFids 8192 (utf8 "9P2000") (2 ^ 64 - 1)).onAdmit (attachAt 9 9)).onComplete
    (lateAttach 9 9) (.ok (.attach ⟨0x80, 0, 1⟩))).onAdmit (attachAt 1 0)).onAdmit
    (.flush 2 1)).onAdmit (.stat 1 9) |>.onAdmit (attachAt 3 7)

/-- A counter at its end gives a stat the key of a flushed attach, whose late completion then
takes the place that another attach was promised. -/
theorem completion_refused_at_the_end : ∃ (history : List Call) (w : World),
    (server twoFids).Run history w ∧ lateAttach 3 7 ∈ w.issued ∧
      w.session.IsLive (lateAttach 3 7).key ∧
      (complete w.session (lateAttach 3 7) (.ok (.attach ⟨0x80, 0, 2⟩))).1 =
        some (.error 3 (utf8 EFIDLIMIT)) := by
  obtain ⟨history, hr⟩ := World.run_versioned twoFids NOTAG 8192 (utf8 "9P2000") (2 ^ 64 - 1)
  have hs : ∃ history, (server twoFids).Run history promisedSeven :=
    ⟨_, .next (.next (.next (.next (.next (.next hr (.admits (attachAt 9 9)))
      (.completes (lateAttach 9 9) _ (by decide +kernel))) (.admits (attachAt 1 0)))
      (.admits (.flush 2 1))) (.admits (.stat 1 9))) (.admits (attachAt 3 7))⟩
  obtain ⟨history, hr⟩ := hs
  refine ⟨_, promisedSeven.onComplete (lateAttach 1 0) (.ok (.attach ⟨0x80, 0, 3⟩)),
    .next hr (.completes _ _ ?_), ?_, ?_, ?_⟩
  · decide +kernel
  · decide +kernel
  · unfold Session.IsLive
    decide +kernel
  · decide +kernel

theorem completion_finds_fids_attaching :
    ((complete attaching.session ⟨⟨1, 1⟩, .attach 0 NOFID [] []⟩ (.ok (.attach ⟨0x80, 0, 1⟩))).1 =
      some (.attach 1 ⟨0x80, 0, 1⟩)) ∧
    ∀ c tag ename, (complete attaching.session ⟨⟨1, 1⟩, .attach 0 NOFID [] []⟩ (.ok c)).1 =
      some (.error tag ename) → ename ∉ fidErrors :=
  ⟨by decide +kernel, (completion_finds_fids
      (.next (.next (.start rfl) (.admits plainVersion)) (.admits (attachAt 1 0)))
      (by decide +kernel) (by decide +kernel) (by unfold Session.IsLive; decide +kernel)).2.2⟩

/-- A message that is answered with an error, and does not ask for a version, uses up a generation
at most: fids, reservations and live requests stay as they were. -/
theorem refused_without_trace (run : (server config).Run history w) {m : TMessage}
    (hversion : m.messageType ≠ TVERSION) {tag : Tag} {ename : Bytes}
    (hrefused : (admitMessage w.session m).1 = .reply (.error tag ename)) :
    (admitMessage w.session m).2.fids = w.session.fids ∧
      (admitMessage w.session m).2.reservations = w.session.reservations ∧
        (admitMessage w.session m).2.requests.live = w.session.requests.live ∧
          ∃ generation, (admitMessage w.session m).2 =
            { w.session with requests := ⟨generation, w.session.requests.live⟩ } := by
  have ha := (World.sound run).wf.admission m
  generalize (admitMessage w.session m).2 = s' at ha ⊢
  rw [hrefused] at ha
  cases ha with
  | version message reset answer => exact absurd rfl hversion
  | rejected e uses => exact ⟨rfl, rfl, rfl, w.session.requests.nextGeneration, rfl⟩
  | refused e begins =>
    exact ⟨rfl, rfl, rfl, saturatingSucc w.session.requests.nextGeneration, rfl⟩

/-- A second attach of a fid that is promised is refused. -/
theorem refused_without_trace_attaching :
    (admitMessage attaching.session (attachAt 2 0)).1 = .reply (.error 2 (utf8 EFIDINUSE)) ∧
      (admitMessage attaching.session (attachAt 2 0)).2.reservations =
        attaching.session.reservations := by
  have hr : (admitMessage attaching.session (attachAt 2 0)).1 =
      .reply (.error 2 (utf8 EFIDINUSE)) := by decide +kernel
  have ht := refused_without_trace
    (.next (.next (.start rfl) (.admits plainVersion)) (.admits (attachAt 1 0)))
    (show (attachAt 2 0).messageType ≠ TVERSION by decide) hr
  exact ⟨hr, ht.2.1⟩

end R9P.Server
