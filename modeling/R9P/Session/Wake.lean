import R9P.Base.Runs

/-!
# Stopping a feed receiver

Library `Session`. `recv_until_stopped` of `feed/event.rs` in the steps that other threads can come
between. A subscriber's lock is held from the load of the stop flag to the wait, but neither the
store of the flag nor `FeedReceiverWake::notify` takes it.
-/

namespace R9P.Session
open Base

variable {α : Type}

/-- Where a receiver is, `event.rs:206`. It holds the lock while it is `locked` and `loaded`. -/
inductive Receiver (α : Type) where
  | outside
  | locked
  | loaded
  | waiting
  | woken
  | returned (result : Except Unit (Option α))

/-- `event.rs:44`, with its receiver, the stop flag and whether the stopping thread has notified. -/
structure FeedSubscriber (α : Type) where
  queue : List α
  closed : Bool
  capacity : Nat
  receiver : Receiver α
  stop : Bool
  notified : Bool

namespace FeedSubscriber

/-- A notification reaches a receiver that waits, and no other. -/
def wake (self : FeedSubscriber α) : FeedSubscriber α :=
  match self.receiver with
  | .waiting => { self with receiver := .woken }
  | _ => self

inductive Action (α : Type) where
  | calls
  | loads
  | looks
  | relocks
  | publishes (event : α)
  | closes
  | stops
  | notifies

/-- What a step does, if it can be taken. -/
def next (self : FeedSubscriber α) : Action α → Option (FeedSubscriber α)
  | .calls =>
    match self.receiver with
    | .outside | .returned _ => some { self with receiver := .locked }
    | _ => none
  | .loads =>
    match self.receiver with
    | .locked =>
      some { self with receiver := if self.stop then .returned (.ok none) else .loaded }
    | _ => none
  | .looks =>
    match self.receiver, self.queue with
    | .loaded, event :: rest =>
      some { self with queue := rest, receiver := .returned (.ok (some event)) }
    | .loaded, [] =>
      some { self with receiver := if self.closed then .returned (.error ()) else .waiting }
    | _, _ => none
  | .relocks =>
    match self.receiver with
    | .woken => some { self with receiver := .locked }
    | _ => none
  | .publishes event => -- `event.rs:153`
    match self.receiver with
    | .locked | .loaded => none
    | _ =>
      if self.closed || self.capacity ≤ self.queue.length then some self
      else some { self with queue := self.queue ++ [event] }.wake
  | .closes => -- `event.rs:226`
    match self.receiver with
    | .locked | .loaded => none
    | _ => some { self with closed := true }.wake
  | .stops => some { self with stop := true }
  | .notifies => -- `event.rs:145`
    if self.stop && !self.notified then some { self with notified := true }.wake else none

/-- A receiver, publishers and a thread that stops it. -/
def receiving (capacity : Nat) : System (FeedSubscriber α) (Action α) where
  initial s := s = ⟨[], false, capacity, .outside, false, false⟩
  step s action s' := s.next action = some s'

/-- The stopping thread does not notify while the receiver, between its load of the flag and its
wait, finds nothing that keeps it from waiting. -/
def Timely (s : FeedSubscriber α) : Action α → Prop
  | .notifies => s.receiver = .loaded → s.queue ≠ [] ∨ s.closed
  | _ => True

/-- Behind a notification the receiver meets the flag, an event or the closed bus before it can
wait. -/
def Heard (s : FeedSubscriber α) : Prop :=
  s.notified → s.stop ∧ s.receiver ≠ .waiting ∧ (s.receiver = .loaded → s.queue ≠ [] ∨ s.closed)

variable {capacity : Nat} {s s' : FeedSubscriber α} {history : List (Action α)}

theorem Heard.wake (h : s.notified → s.stop ∧ (s.receiver = .loaded → s.queue ≠ [] ∨ s.closed)) :
    s.wake.Heard := by
  unfold FeedSubscriber.wake
  split
  · intro hn
    exact ⟨(h hn).1, by simp⟩
  · next hw =>
    intro hn
    exact ⟨(h hn).1, fun hr => hw hr, (h hn).2⟩

theorem Heard.step {action : Action α} (h : s.Heard) (ht : s.Timely action)
    (hs : s.next action = some s') : s'.Heard := by
  intro hn
  cases action with
  | calls =>
    simp only [next] at hs
    split at hs <;> cases hs
    all_goals exact ⟨(h hn).1, by simp⟩
  | loads =>
    simp only [next] at hs
    split at hs <;> cases hs
    have hst := (h hn).1
    exact ⟨hst, by simp [hst]⟩
  | looks =>
    simp only [next] at hs
    split at hs
    · cases hs
      exact ⟨(h hn).1, by simp⟩
    · next hr hq =>
      cases hs
      -- the queue is empty, so the bus was closed
      obtain ⟨hst, _, hl⟩ := h hn
      have hc := (hl hr).resolve_left fun hne => hne hq
      exact ⟨hst, by simp [hc]⟩
    · cases hs
  | relocks =>
    simp only [next] at hs
    split at hs <;> cases hs
    exact ⟨(h hn).1, by simp⟩
  | publishes event =>
    simp only [next] at hs
    split at hs
    · cases hs
    · cases hs
    · next hl =>
      split at hs <;> cases hs
      · exact h hn
      · exact Heard.wake (fun hn => ⟨(h hn).1, fun hr => absurd hr hl⟩) hn
  | closes =>
    simp only [next] at hs
    split at hs
    · cases hs
    · cases hs
    · cases hs
      refine Heard.wake (fun hn => ⟨?_, fun _ => .inr rfl⟩) hn
      exact (h hn).1
  | stops =>
    cases hs
    exact ⟨rfl, (h hn).2⟩
  | notifies =>
    simp only [next] at hs
    split at hs
    · next hst =>
      cases hs
      exact Heard.wake (fun _ => ⟨(Bool.and_eq_true_iff.mp hst).1, ht⟩) hn
    · cases hs

theorem heard_of_run (run : ((receiving capacity).restrict Timely).Run history s) : s.Heard := by
  apply run.invariant (I := fun _ => Heard)
  · rintro s rfl hn
    cases hn
  · rintro _ s action s' _ h ⟨ht, hs⟩
    exact h.step ht hs

/-- In every run whose notification finds the receiver with the flag, an event or the closed bus
before its next wait, the receiver is not left waiting, and its own steps lead it out of a call
without another event. -/
theorem notify_stops (run : ((receiving capacity).restrict Timely).Run history s)
    (hn : s.notified) : s.receiver ≠ .waiting ∧ (s.receiver = .locked → [.loads].foldlM next s =
        some { s with receiver := .returned (.ok none) }) ∧
      (s.receiver = .woken → [.relocks, .loads].foldlM next s =
        some { s with receiver := .returned (.ok none) }) ∧
      (s.receiver = .loaded → ∃ queue result, [.looks].foldlM next s =
        some { s with queue := queue, receiver := .returned result }) := by
  obtain ⟨hs, hw, hl⟩ := heard_of_run run hn
  refine ⟨hw, fun h => ?_, fun h => ?_, fun h => ?_⟩
  · simp [next, h, hs]
  · simp [next, h, hs]
  · cases hq : s.queue with
    | nil =>
      have hc := (hl h).resolve_left fun hne => hne hq
      exact ⟨[], .error (), by simp [next, h, hq, hc]⟩
    | cons event rest => exact ⟨rest, .ok (some event), by simp [next, h, hq]⟩

theorem notify_stops_waiting : ∃ s : FeedSubscriber Nat, s.receiver = .woken ∧
    [.relocks, .loads].foldlM next s = some { s with receiver := .returned (.ok none) } := by
  have run : ((receiving 1).restrict Timely).Run [.notifies, .stops, .looks, .loads, .calls]
      (⟨[], false, 1, .woken, true, true⟩ : FeedSubscriber Nat) :=
    .next (.next (.next (.next (.next (.start rfl) ⟨trivial, rfl⟩) ⟨trivial, rfl⟩)
      ⟨trivial, rfl⟩) ⟨trivial, rfl⟩) ⟨nofun, rfl⟩
  exact ⟨_, rfl, (notify_stops run rfl).2.2.1 rfl⟩

/-- A notification between the load and the wait is lost. -/
theorem notify_misses : (receiving 1).Run [.looks, .notifies, .stops, .loads, .calls]
    (⟨[], false, 1, .waiting, true, true⟩ : FeedSubscriber Nat) :=
  .next (.next (.next (.next (.next (.start rfl) rfl) rfl) rfl) rfl) rfl

end FeedSubscriber

end R9P.Session
