import R9P.Base.Runs

/-!
# Closing a client session

Library `Session`. `shutdown` of `client_session.rs` among calls of `reconnect` and
`reconnect_after`, in the steps that other threads can come between. A mutex lets one of these
calls in at a time, but the flag is not read under the lock of the current client.
-/

namespace R9P.Session
open Base

/-- Where the call behind the reconnect mutex is, `client_session.rs:121`, with the client that
failed if it is a `reconnect_after`. -/
inductive Reconnect where
  | returned (client : Option Nat)
  | locked (failed : Option Nat)
  | loaded (failed : Option Nat)
  | replacing (failed : Option Nat)
  | connecting (failed : Option Nat)
  | connected (replacement : Nat)
  | swapping (replacement : Nat)

/-- Where `shutdown` is, `client_session.rs:170`. -/
inductive Shutdown where
  | outside
  | stored
  | holding (client : Nat)
  | returned

/-- `client_session.rs:63` with its threads, the number of clients so far, those that were shut
down, and those that calls of `reconnect_after` made a connection in place of. -/
structure ClientSession where
  current : Nat
  closed : Bool
  reconnect : Reconnect
  shutdown : Shutdown
  clients : Nat
  shut : List Nat
  replaced : List Nat

namespace ClientSession

inductive Action where
  | calls (failed : Option Nat)
  | loads
  | reads
  | connects (succeeds : Bool)
  | swaps
  | closes
  | looks
  | shuts

/-- What a step does, if it can be taken. -/
def next (self : ClientSession) (action : Action) : Option ClientSession :=
  match action, self.reconnect, self.shutdown with
  | .calls failed, .returned _, _ => some { self with reconnect := .locked failed }
  | .loads, .locked failed, _ => -- `snapshot`
    some { self with reconnect := if self.closed then .returned none else .loaded failed }
  | .reads, .loaded failed, _ =>
    if failed = none ∨ failed = some self.current then
      some { self with reconnect := .replacing failed }
    else some { self with reconnect := .returned self.current }
  | .loads, .replacing failed, _ => -- `replace_from`
    some { self with reconnect := if self.closed then .returned none else .connecting failed }
  | .connects false, .connecting _, _ => some { self with reconnect := .returned none }
  | .connects true, .connecting failed, _ =>
    some { self with
      reconnect := .connected self.clients
      clients := self.clients + 1
      replaced := failed.toList ++ self.replaced }
  | .loads, .connected replacement, _ =>
    if self.closed then
      some { self with reconnect := .returned none, shut := replacement :: self.shut }
    else some { self with reconnect := .swapping replacement }
  | .swaps, .swapping replacement, _ =>
    some { self with current := replacement, reconnect := .returned replacement }
  | .closes, _, .outside => some { self with closed := true, shutdown := .stored }
  | .looks, _, .stored => some { self with shutdown := .holding self.current }
  | .shuts, _, .holding client =>
    some { self with shut := client :: self.shut, shutdown := .returned }
  | _, _, _ => none

/-- A session with its first client, and the threads that use it. -/
def used : System ClientSession Action where
  initial s := s = ⟨0, false, .returned none, .outside, 1, [], []⟩
  step s action s' := s.next action = some s'

/-- No reconnect is between its last load of the flag and its write. -/
def Calm (s : ClientSession) : Prop := ∀ replacement, s.reconnect ≠ .swapping replacement

/-- The shutdown looks at the current client at no other time. -/
def Apart (s : ClientSession) : Action → Prop
  | .looks => s.Calm
  | _ => True

/-- How far the session is closed. -/
def Closes (s : ClientSession) : Prop :=
  match s.shutdown with
  | .outside => True
  | .stored => s.closed
  | .holding client => s.closed ∧ s.current = client ∧ s.Calm
  | .returned => s.closed ∧ s.current ∈ s.shut ∧ s.Calm

/-- What the call behind the mutex knows of the clients that were replaced. -/
def Renews (s : ClientSession) : Prop :=
  match s.reconnect with
  | .returned _ | .locked _ => s.current ∈ s.replaced → s.closed
  | .loaded _ => s.current ∉ s.replaced
  | .replacing failed | .connecting failed =>
    s.current ∉ s.replaced ∧ (failed = none ∨ failed = some s.current)
  | .connected replacement | .swapping replacement =>
    replacement < s.clients ∧ replacement ∉ s.replaced

variable {s s' : ClientSession} {history : List Action}

/-- A step of the reconnect before its write. -/
theorem Closes.moved (h : s.Closes) (hc : s'.closed = s.closed) (hd : s'.shutdown = s.shutdown)
    (hcr : s'.current = s.current) (hs : s.shut ⊆ s'.shut) (hcm : s.closed → s'.Calm) :
    s'.Closes := by
  unfold Closes at h ⊢
  rw [hd, hc, hcr]
  cases hsd : s.shutdown <;> rw [hsd] at h
  · trivial
  · exact h
  · exact ⟨h.1, h.2.1, hcm h.1⟩
  · exact ⟨h.1, hs h.2.1, hcm h.1⟩

/-- What the last reconnect returned is current. -/
def Tracks (s : ClientSession) : Prop :=
  s.Closes ∧ ∀ client, s.reconnect = .returned (some client) → s.current = client

theorem Tracks.next {action : Action} (h : s.Tracks) (ha : s.Apart action)
    (hs : s.next action = some s') : s'.Tracks := by
  obtain ⟨hc, hr⟩ := h
  unfold ClientSession.next at hs
  split at hs
  · cases hs
    exact ⟨hc.moved rfl rfl rfl (.refl _) fun _ => by simp [Calm], by simp⟩
  · cases hs
    exact ⟨hc.moved rfl rfl rfl (.refl _) fun h => by simp [Calm, h], by split <;> simp⟩
  · split at hs <;> cases hs
    all_goals exact ⟨hc.moved rfl rfl rfl (.refl _) fun _ => by simp [Calm], by simp⟩
  · cases hs
    exact ⟨hc.moved rfl rfl rfl (.refl _) fun h => by simp [Calm, h], by split <;> simp⟩
  · cases hs
    exact ⟨hc.moved rfl rfl rfl (.refl _) fun _ => by simp [Calm], by simp⟩
  · cases hs
    exact ⟨hc.moved rfl rfl rfl (.refl _) fun _ => by simp [Calm], by simp⟩
  · split at hs <;> cases hs
    · refine ⟨hc.moved rfl rfl rfl (List.subset_cons_self _ _) fun _ => ?_, by simp⟩
      simp [Calm]
    · next hcl => exact ⟨hc.moved rfl rfl rfl (.refl _) fun h => absurd h hcl, by simp⟩
  · next replacement hrc =>
    -- the shutdown has not looked yet
    cases hs
    refine ⟨?_, by simp⟩
    unfold Closes at hc ⊢
    dsimp only
    split at hc
    · trivial
    · exact hc
    · exact absurd hrc (hc.2.2 replacement)
    · exact absurd hrc (hc.2.2 replacement)
  · cases hs
    exact ⟨rfl, hr⟩
  · next hsd =>
    cases hs
    rw [Closes, hsd] at hc
    exact ⟨⟨hc, rfl, ha⟩, hr⟩
  · next client hsd =>
    cases hs
    rw [Closes, hsd] at hc
    exact ⟨⟨hc.1, hc.2.1 ▸ List.mem_cons_self, hc.2.2⟩, hr⟩
  · cases hs

theorem tracks_of_run (run : (used.restrict Apart).Run history s) : s.Tracks := by
  apply run.invariant (I := fun _ => Tracks)
  · rintro s rfl
    exact ⟨trivial, nofun⟩
  · rintro _ s action s' _ h ⟨ha, hs⟩
    exact h.next ha hs

/-- At most one connection was made in place of a client. -/
structure Single (s : ClientSession) : Prop where
  nodup : s.replaced.Nodup
  below : ∀ client ∈ s.replaced, client < s.clients
  current : s.current < s.clients
  renews : s.Renews

theorem Single.next {action : Action} (h : s.Single) (hs : s.next action = some s') :
    s'.Single := by
  obtain ⟨hd, hb, hc, hr⟩ := h
  unfold ClientSession.next at hs
  split at hs
  · next hrc =>
    rw [Renews, hrc] at hr
    cases hs
    exact ⟨hd, hb, hc, hr⟩
  · next hrc =>
    rw [Renews, hrc] at hr
    cases hs
    refine ⟨hd, hb, hc, ?_⟩
    cases hcl : s.closed with
    | true => exact fun _ => rfl
    | false => exact fun hm => by simp [hr hm] at hcl
  · next hrc =>
    rw [Renews, hrc] at hr
    split at hs <;> cases hs
    · next hf => exact ⟨hd, hb, hc, hr, hf⟩
    · exact ⟨hd, hb, hc, fun hm => absurd hm hr⟩
  · next hrc =>
    rw [Renews, hrc] at hr
    cases hs
    refine ⟨hd, hb, hc, ?_⟩
    cases hcl : s.closed with
    | true => exact fun _ => rfl
    | false => exact hr
  · next hrc =>
    rw [Renews, hrc] at hr
    cases hs
    exact ⟨hd, hb, hc, fun hm => absurd hm hr.1⟩
  · next failed hrc =>
    rw [Renews, hrc] at hr
    cases hs
    -- what failed is current, so no connection was made in its place before
    obtain ⟨hd, hb⟩ : (failed.toList ++ s.replaced).Nodup ∧
        ∀ client ∈ failed.toList ++ s.replaced, client < s.clients := by
      obtain ⟨hn, rfl | rfl⟩ := hr
      · exact ⟨hd, hb⟩
      · exact ⟨List.nodup_cons.mpr ⟨hn, hd⟩, List.forall_mem_cons.mpr ⟨hc, hb⟩⟩
    exact ⟨hd, fun client hm => Nat.lt_succ_of_lt (hb client hm), Nat.lt_succ_of_lt hc,
      Nat.lt_succ_self _, fun hm => Nat.lt_irrefl _ (hb _ hm)⟩
  · next hrc =>
    rw [Renews, hrc] at hr
    split at hs <;> cases hs
    · next hcl => exact ⟨hd, hb, hc, fun _ => hcl⟩
    · exact ⟨hd, hb, hc, hr⟩
  · next hrc =>
    rw [Renews, hrc] at hr
    cases hs
    exact ⟨hd, hb, hr.1, fun hm => absurd hm hr.2⟩
  · cases hs
    refine ⟨hd, hb, hc, ?_⟩
    unfold Renews at hr ⊢
    dsimp only
    split at hr
    all_goals first | exact fun _ => rfl | exact hr
  · cases hs
    exact ⟨hd, hb, hc, hr⟩
  · cases hs
    exact ⟨hd, hb, hc, hr⟩
  · cases hs

theorem replaced_nodup (run : used.Run history s) : s.replaced.Nodup := by
  refine (run.invariant (I := fun _ => Single) ?_ ?_).nodup
  · rintro s rfl
    exact ⟨.nil, nofun, Nat.one_pos, nofun⟩
  · intro _ s action s' _ h hs
    exact h.next hs

/-- In every run whose shutdown keeps apart from the swaps, the current client and what a reconnect
returned last are shut down behind it. At most one connection is made in place of a client. -/
theorem shutdown_closes (run : (used.restrict Apart).Run history s) :
    (s.shutdown = .returned → s.current ∈ s.shut ∧
      ∀ client, s.reconnect = .returned (some client) → client ∈ s.shut) ∧ s.replaced.Nodup := by
  obtain ⟨hc, hr⟩ := tracks_of_run run
  refine ⟨fun hs => ?_, replaced_nodup run.of_restrict⟩
  rw [Closes, hs] at hc
  exact ⟨hc.2.1, fun client h => hr client h ▸ hc.2.1⟩

theorem shutdown_closes_reconnected : ∃ s : ClientSession,
    s.shutdown = .returned ∧ s.current = 1 ∧ s.current ∈ s.shut ∧ s.replaced = [0] := by
  have run : (used.restrict Apart).Run
      [.loads, .calls (some 1), .shuts, .looks, .closes, .swaps, .loads, .connects true, .loads,
        .reads, .loads, .calls (some 0)]
      ⟨1, true, .returned none, .returned, 2, [1], [0]⟩ :=
    .next (.next (.next (.next (.next (.next (.next (.next (.next (.next (.next (.next (.start rfl)
      ⟨trivial, rfl⟩) ⟨trivial, rfl⟩) ⟨trivial, rfl⟩) ⟨trivial, rfl⟩) ⟨trivial, rfl⟩)
      ⟨trivial, rfl⟩) ⟨trivial, rfl⟩) ⟨trivial, rfl⟩) ⟨nofun, rfl⟩) ⟨trivial, rfl⟩)
      ⟨trivial, rfl⟩) ⟨trivial, rfl⟩
  exact ⟨_, rfl, rfl, ((shutdown_closes run).1 rfl).1, rfl⟩

/-- A swap behind the shutdown leaves a client that is current and not shut down. -/
theorem shutdown_misses : ∃ s, used.Run
    [.swaps, .shuts, .looks, .closes, .loads, .connects true, .loads, .reads, .loads, .calls none]
    s ∧ s.shutdown = .returned ∧ s.reconnect = .returned s.current ∧ s.current ∉ s.shut :=
  ⟨⟨1, true, .returned (some 1), .returned, 2, [0], []⟩,
    .next (.next (.next (.next (.next (.next (.next (.next (.next (.next (.start rfl) rfl) rfl) rfl)
      rfl) rfl) rfl) rfl) rfl) rfl) rfl, rfl, rfl, by decide⟩

end ClientSession

end R9P.Session
