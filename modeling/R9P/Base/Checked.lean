import Mathlib.Tactic.Common

/-!
# Checked computations

Library `Base`. Two shapes of fallible code: a plain `Except` result, and a state
transformer whose state survives the failure. The second is a method on a mutable
receiver that returns early: whatever it changed before the error stays changed.
`Checked.wp` is its weakest precondition; the rules take a body apart statement by
statement, so that a caller reasons from the specification of each callee.
-/

namespace R9P.Base

universe u v

section Except

variable {ε : Type u} {α β : Type v} {f : α → Except ε β} {x : Except ε α} {f g : α → Except ε β}

/-- A sequence succeeds exactly when both of its parts do. -/
theorem bind_ok {b : β} :
    (x >>= f) = .ok b ↔ ∃ a, x = .ok a ∧ f a = .ok b := by
  cases x with
  | error e | ok a => simp [bind, Except.bind]

/-- Sequences agree that go on alike behind a success of their first part. -/
theorem except_bind_congr (h : ∀ a, x = .ok a → f a = g a) :
    (x >>= f) = (x >>= g) := by
  cases x with
  | error e => rfl
  | ok a => exact h a rfl

/-- A sequence fails in its first part, or in the second behind a success of the first. -/
theorem bind_error {e : ε} :
    (x >>= f) = .error e ↔ x = .error e ∨ ∃ a, x = .ok a ∧ f a = .error e := by
  cases x with
  | error e' | ok a => simp [bind, Except.bind]

/-- Behind a check that yields nothing, the rest must succeed as well. -/
theorem check_ok {γ : Type} {x : Except ε Unit} {y : Except ε γ} {b : γ} :
    (x >>= fun _ => y) = .ok b ↔ x = .ok () ∧ y = .ok b := by
  cases x with
  | error e | ok a => simp [bind, Except.bind]

/-- A guard passes exactly when its condition fails. -/
theorem guard_ok {p : Prop} [Decidable p] {e : ε} {u : Unit} :
    (if p then Except.error e else .ok ()) = .ok u ↔ ¬ p := by
  by_cases hp : p
  all_goals simp [hp]

theorem ok_of_toOption {a : α} (h : x.toOption = some a) : x = .ok a := by
  cases x with
  | error e => cases h
  | ok b =>
    cases h
    rfl

theorem mapM_congr {l : List α}
    (h : ∀ a ∈ l, f a = g a) : l.mapM f = l.mapM g := by
  induction l with
  | nil => rfl
  | cons a l ih =>
    rw [List.mapM_cons, List.mapM_cons, h a List.mem_cons_self,
      ih fun b hb => h b (List.mem_cons_of_mem a hb)]

/-- A list is mapped when each of its elements is. -/
theorem mapM_ok {l : List α} {parts : List β} (h : l.mapM f = .ok parts) :
    List.Forall₂ (fun a b => f a = .ok b) l parts := by
  induction l generalizing parts with
  | nil =>
    cases h
    exact .nil
  | cons a l ih =>
    rw [List.mapM_cons] at h
    obtain ⟨b, hb, h⟩ := bind_ok.mp h
    obtain ⟨rest, hr, h⟩ := bind_ok.mp h
    cases h
    exact .cons hb (ih hr)

end Except

section Forall₂

variable {α β : Type u} {Q : α → β → Prop} {l : List α} {parts : List β}

theorem forall₂_mem_right {b : β} (h : List.Forall₂ Q l parts) (hb : b ∈ parts) :
    ∃ a ∈ l, Q a b := by
  induction h with
  | nil => cases hb
  | @cons a b' l parts hab _ ih =>
    rcases List.mem_cons.mp hb with rfl | hb
    · exact ⟨a, List.mem_cons_self, hab⟩
    · obtain ⟨a', ha', hq⟩ := ih hb
      exact ⟨a', List.mem_cons_of_mem a ha', hq⟩

/-- What holds between elements holds between what became of them. -/
theorem forall₂_pairwise {R : α → α → Prop} {S : β → β → Prop} (h : List.Forall₂ Q l parts)
    (hl : l.Pairwise R) (hi : ∀ a a' b b', R a a' → Q a b → Q a' b' → S b b') :
    parts.Pairwise S := by
  induction h with
  | nil => exact .nil
  | @cons a b l parts hab ht ih =>
    obtain ⟨hh, hl⟩ := List.pairwise_cons.mp hl
    refine List.pairwise_cons.mpr ⟨fun b' hb' => ?_, ih hl⟩
    obtain ⟨a', ha', hab'⟩ := forall₂_mem_right ht hb'
    exact hi a a' b b' (hh a' ha') hab hab'

end Forall₂

/-- A computation on a mutable state `σ` that may stop with an error `ε`.
The state reached is kept in both outcomes. -/
abbrev Checked (σ ε α : Type) := ExceptT ε (StateM σ) α

namespace Checked

variable {σ ε α β : Type} {x : Checked σ ε α} {s : σ} {condition : Bool}

/-- Outcome and final state of a run from a given state. -/
def exec (x : Checked σ ε α) (s : σ) : Except ε α × σ := x.run.run s

/-- Build a computation from its outcome and final state. -/
def ofExec (f : σ → Except ε α × σ) : Checked σ ε α := ExceptT.mk fun s => f s

/-- Succeed or fail as a check on the current state does, leaving it unchanged. -/
def ask (f : σ → Except ε α) : Checked σ ε α := ofExec fun s => (f s, s)

/-- Stop with the error when the condition holds. -/
def refuseIf (condition : Bool) (e : ε) : Checked σ ε Unit :=
  if condition then throw e else pure ()

/-- Apply a total update to the state. -/
def update (f : σ → σ) : Checked σ ε Unit := ofExec fun s => (.ok (), f s)

/-- Run a computation and hand its outcome on, whether it is a success or not. -/
def attempt (x : Checked σ ε α) : Checked σ ε (Except ε α) :=
  ofExec fun s => (.ok (x.exec s).1, (x.exec s).2)

/-- Run a computation on a part of the state. -/
def zoom {τ : Type} (get : σ → τ) (put : σ → τ → σ) (x : Checked τ ε α) : Checked σ ε α :=
  ofExec fun s => ((x.exec (get s)).1, put s (x.exec (get s)).2)

/-- The second part of a sequence runs from the state the first part left. -/
theorem exec_bind (x : Checked σ ε α) (f : α → Checked σ ε β) (s : σ) : (x >>= f).exec s =
      match x.exec s with
      | (.ok a, s') => (f a).exec s'
      | (.error e, s') => (.error e, s') := by
  rcases h : x.exec s with ⟨r, s'⟩
  unfold exec at h ⊢
  simp only [ExceptT.run_bind, StateT.run_bind, h]
  cases r <;> rfl

theorem exec_refuseIf_pass (h : condition = false) (e : ε) (s : σ) :
    (refuseIf condition e : Checked σ ε Unit).exec s = (.ok (), s) := by
  rw [h]
  rfl

theorem exec_bind_ok {s s' : σ} {a : α} (h : x.exec s = (.ok a, s'))
    (f : α → Checked σ ε β) : (x >>= f).exec s = (f a).exec s' := by
  rw [exec_bind, h]

theorem exec_bind_error {s s' : σ} {e : ε} (h : x.exec s = (.error e, s'))
    (f : α → Checked σ ε β) : (x >>= f).exec s = (.error e, s') := by
  rw [exec_bind, h]

/-- Sequences with one first part agree when their second parts do, wherever the first part
succeeds. -/
theorem exec_bind_congr {f g : α → Checked σ ε β}
    (h : ∀ a s', x.exec s = (.ok a, s') → (f a).exec s' = (g a).exec s') :
    (x >>= f).exec s = (x >>= g).exec s := by
  rw [exec_bind, exec_bind]
  rcases hx : x.exec s with ⟨r, s'⟩
  cases r with
  | error e => rfl
  | ok a => exact h a s' hx

/-- Weakest precondition: the postcondition holds of the outcome and the final state. -/
def wp (x : Checked σ ε α) (Q : Except ε α → σ → Prop) (s : σ) : Prop :=
  Q (x.exec s).1 (x.exec s).2

variable {Q : Except ε α → σ → Prop} {s : σ} {f : α → Checked σ ε β} {R : Except ε β → σ → Prop}
  {y : Checked σ ε α} {k : Unit → Checked σ ε β}

@[simp] theorem wp_pure (a : α) : wp (pure a : Checked σ ε α) Q s ↔ Q (.ok a) s := .rfl

@[simp] theorem wp_throw (e : ε) : wp (throw e : Checked σ ε α) Q s ↔ Q (.error e) s := .rfl

theorem exec_ofExec (f : σ → Except ε α × σ) : (ofExec f).exec s = f s := rfl

@[simp] theorem wp_ofExec (f : σ → Except ε α × σ) : wp (ofExec f) Q s ↔ Q (f s).1 (f s).2 := .rfl

@[simp] theorem wp_ask (f : σ → Except ε α) : wp (ask f) Q s ↔ Q (f s) s := .rfl

@[simp] theorem wp_update {Q : Except ε Unit → σ → Prop} (f : σ → σ) :
    wp (update f) Q s ↔ Q (.ok ()) (f s) := .rfl

@[simp] theorem wp_attempt {Q : Except ε (Except ε α) → σ → Prop} (x : Checked σ ε α) :
    wp (attempt x) Q s ↔ wp x (fun r s' => Q (.ok r) s') s := .rfl

@[simp] theorem wp_zoom {τ : Type} (get : σ → τ) (put : σ → τ → σ) (x : Checked τ ε α) :
    wp (zoom get put x) Q s ↔ wp x (fun r t => Q r (put s t)) (get s) := .rfl

/-- A refusal either stops with its error or continues from the same state. -/
@[simp] theorem wp_refuseIf {Q : Except ε Unit → σ → Prop} (condition : Bool) (e : ε) :
    wp (refuseIf condition e) Q s ↔
      (condition = true → Q (.error e) s) ∧ (condition = false → Q (.ok ()) s) := by
  cases condition <;> simp [refuseIf]

/-- Sequencing: an early error skips the rest, a success continues in the state reached. -/
@[simp] theorem wp_bind {Q : Except ε β → σ → Prop} (x : Checked σ ε α) (f : α → Checked σ ε β) :
    wp (x >>= f) Q s ↔ wp x (fun r s' =>
        match r with
        | .ok a => wp (f a) Q s'
        | .error e => Q (.error e) s') s := by
  unfold wp
  rw [exec_bind]
  rcases x.exec s with ⟨r, s'⟩
  cases r <;> rfl

/-- A check passes its value on or stops the computation. -/
theorem wp_ask_bind {Q : Except ε β → σ → Prop} {f : σ → Except ε α} {k : α → Checked σ ε β}
    (her : ∀ e, f s = .error e → Q (.error e) s) (hok : ∀ a, f s = .ok a → wp (k a) Q s) :
    wp (ask f >>= k) Q s := by
  rw [wp_bind, wp_ask]
  cases hf : f s with
  | error e => exact her e hf
  | ok a => exact hok a hf

/-- A refusal stops the computation or lets it continue. -/
theorem wp_refuseIf_bind {Q : Except ε β → σ → Prop} {e : ε}
    (her : condition = true → Q (.error e) s)
    (hok : condition = false → wp (k ()) Q s) : wp (refuseIf condition e >>= k) Q s := by
  rw [wp_bind, wp_refuseIf]
  exact ⟨her, hok⟩

/-- The weakest precondition of a conditional splits on its guard. -/
theorem wp_ite (p : Prop) [Decidable p] (x y : Checked σ ε α) :
    wp (if p then x else y) Q s ↔ (p → wp x Q s) ∧ (¬ p → wp y Q s) := by
  by_cases hp : p <;> simp [hp]

/-- The postcondition holds of what a run came to. -/
theorem wp.of_exec {r : Except ε α} {s' : σ} (h : wp x Q s)
    (he : x.exec s = (r, s')) : Q r s' := by
  unfold wp at h
  rwa [he] at h

/-- A weaker postcondition has a weaker precondition. -/
theorem wp.mono {R : Except ε α → σ → Prop} (h : wp x Q s)
    (hw : ∀ r s', Q r s' → R r s') : wp x R s := hw _ _ h

/-- A sequence from the specification of its first part. -/
theorem wp.bind
    (h : wp x Q s) (hok : ∀ a s', Q (.ok a) s' → wp (f a) R s')
    (her : ∀ e s', Q (.error e) s' → R (.error e) s') : wp (x >>= f) R s := by
  rw [wp_bind]
  refine h.mono fun r s' hr => ?_
  cases r with
  | ok a => exact hok a s' hr
  | error e => exact her e s' hr

/-- The same for a first part whose outcome is looked at. -/
theorem wp.bind_attempt {f : Except ε α → Checked σ ε β}
    (h : wp x Q s) (hok : ∀ a s', Q (.ok a) s' → wp (f (.ok a)) R s')
    (her : ∀ e s', Q (.error e) s' → wp (f (.error e)) R s') : wp (attempt x >>= f) R s := by
  rw [wp_bind, wp_attempt]
  refine h.mono fun r s' hr => ?_
  cases r with
  | ok a => exact hok a s' hr
  | error e => exact her e s' hr

/-! ### Runs from two states -/

/-- From two states a computation has one outcome, and a relation holds of it and of the states
it reaches. -/
def both (x : Checked σ ε α) (R : Except ε α → σ → σ → Prop) (s t : σ) : Prop :=
  (x.exec s).1 = (x.exec t).1 ∧ R (x.exec s).1 (x.exec s).2 (x.exec t).2

section Both

variable {R : Except ε α → σ → σ → Prop} {t : σ} {R' : Except ε β → σ → σ → Prop}

theorem both.mono {R' : Except ε α → σ → σ → Prop} (h : both x R s t)
    (hw : ∀ r s' t', R r s' t' → R' r s' t') : both x R' s t := ⟨h.1, hw _ _ _ h.2⟩

theorem both_bind
    (hx : both x R s t) (her : ∀ e s' t', R (.error e) s' t' → R' (.error e) s' t')
    (hok : ∀ a s' t', R (.ok a) s' t' → both (f a) R' s' t') : both (x >>= f) R' s t := by
  obtain ⟨heq, hR⟩ := hx
  unfold both
  rw [exec_bind, exec_bind]
  rcases hs : x.exec s with ⟨r, s'⟩
  rcases ht : x.exec t with ⟨r', t'⟩
  rw [hs, ht] at heq hR
  cases heq
  cases r with
  | error e => exact ⟨rfl, her e s' t' hR⟩
  | ok a => exact hok a s' t' hR

/-- A check that comes to the same in both states. -/
theorem both_ask_bind {f : σ → Except ε α}
    {k : α → Checked σ ε β} (hs : f s = f t) (her : ∀ e, R' (.error e) s t)
    (hok : ∀ a, f s = .ok a → both (k a) R' s t) : both (ask f >>= k) R' s t := by
  refine both_bind (R := fun r s' t' => r = f s ∧ s' = s ∧ t' = t) ⟨hs, rfl, rfl, rfl⟩ ?_ ?_
  · rintro e _ _ ⟨_, rfl, rfl⟩
    exact her e
  · rintro a _ _ ⟨ha, rfl, rfl⟩
    exact hok a ha.symm

theorem both_refuseIf_bind {e : ε} (her : R' (.error e) s t)
    (hok : condition = false → both (k ()) R' s t) :
    both (refuseIf condition e >>= k) R' s t := by
  cases condition with
  | true => exact ⟨rfl, her⟩
  | false => exact hok rfl

end Both

/-! ### Frames -/

/-- A computation leaves a part of the state as it is, in either outcome. -/
def Frames {τ : Type} (view : σ → τ) (x : Checked σ ε α) : Prop :=
  ∀ s, view (x.exec s).2 = view s

section Frames

variable {τ : Type} {view : σ → τ}

theorem frames_pure (a : α) : Frames view (pure a : Checked σ ε α) := fun _ => rfl

theorem frames_throw (e : ε) : Frames view (throw e : Checked σ ε α) := fun _ => rfl

theorem frames_ask (f : σ → Except ε α) : Frames view (ask f) := fun _ => rfl

theorem frames_update {f : σ → σ} (h : ∀ s, view (f s) = view s) :
    Frames view (update f : Checked σ ε Unit) := h

theorem frames_refuseIf (condition : Bool) (e : ε) :
    Frames view (refuseIf condition e : Checked σ ε Unit) := by
  cases condition with
  | false => exact frames_pure ()
  | true => exact frames_throw e

theorem Frames.bind (hx : Frames view x)
    (hf : ∀ a, Frames view (f a)) : Frames view (x >>= f) := by
  intro s
  have hfr := hx s
  rw [exec_bind]
  rcases he : x.exec s with ⟨r, s'⟩
  rw [he] at hfr
  cases r with
  | error e => exact hfr
  | ok a => exact (hf a s').trans hfr

theorem Frames.ite {p : Prop} [Decidable p] {x y : Checked σ ε α} (hx : Frames view x)
    (hy : Frames view y) : Frames view (if p then x else y) :=
  iteInduction (fun _ => hx) fun _ => hy

/-- Behind a first part that leaves a part of the state alone. -/
theorem Frames.wp_bind {Q : Except ε β → σ → Prop}
    (hx : Frames view x) (her : ∀ e s', view s' = view s → Q (.error e) s')
    (hok : ∀ a s', x.exec s = (.ok a, s') → view s' = view s → wp (f a) Q s') :
    wp (x >>= f) Q s := by
  have hfr := hx s
  unfold wp at hok ⊢
  rw [exec_bind]
  rcases he : x.exec s with ⟨r, s'⟩
  rw [he] at hfr
  cases r with
  | error e => exact her e s' hfr
  | ok a => exact hok a s' he hfr

end Frames

/-! ### Steps -/

/-- A computation takes every state to one that a relation allows, in either outcome. -/
def Steps (R : σ → σ → Prop) (x : Checked σ ε α) : Prop := ∀ s, R s (x.exec s).2

section Steps

variable {R : σ → σ → Prop} {x : Checked σ ε α} {f : α → Checked σ ε β}

theorem steps_pure [Std.Refl R] (a : α) : Steps R (pure a : Checked σ ε α) := fun s => refl s

theorem steps_throw [Std.Refl R] (e : ε) : Steps R (throw e : Checked σ ε α) := fun s => refl s

theorem steps_ask [Std.Refl R] (f : σ → Except ε α) : Steps R (ask f) := fun s => refl s

theorem Steps.attempt (h : Steps R x) : Steps R x.attempt := h

theorem Steps.bind [IsTrans σ R] (hx : Steps R x) (hf : ∀ a, Steps R (f a)) : Steps R (x >>= f) :=
    by
  intro s
  have hfr := hx s
  rw [exec_bind]
  rcases he : x.exec s with ⟨r, s'⟩
  rw [he] at hfr
  cases r with
  | error e => exact hfr
  | ok a => exact IsTrans.trans _ _ _ hfr (hf a s')

theorem Steps.ite {p : Prop} [Decidable p] (hx : Steps R x)
    (hy : Steps R y) : Steps R (if p then x else y) :=
  iteInduction (fun _ => hx) fun _ => hy

theorem Steps.wp (hx : Steps R x) : Checked.wp x (fun _ s' => R s s') s := hx s

/-- Behind a first part whose steps a relation allows. -/
theorem Steps.wp_bind {Q : Except ε β → σ → Prop} (hx : Steps R x)
    (her : ∀ e s', R s s' → Q (.error e) s')
    (hok : ∀ a s', R s s' → Checked.wp (f a) Q s') : Checked.wp (x >>= f) Q s :=
  hx.wp.bind (fun a s' h => hok a s' h) fun e s' h => her e s' h

end Steps

/-- A computation that, when it succeeds, tells something of its result and the state it
reached. -/
def Yields (P : α → σ → Prop) (x : Checked σ ε α) : Prop :=
  ∀ s a s', x.exec s = (.ok a, s') → P a s'

section Yields

variable {R : σ → σ → Prop} {P : α → σ → Prop} {P' : β → σ → Prop} {x : Checked σ ε α}
  {f : α → Checked σ ε β}

theorem yields_throw (e : ε) : Yields P (throw e : Checked σ ε α) := by
  intro s a s' h
  cases h

theorem yields_pure {a : α} (h : ∀ s, P a s) : Yields P (pure a : Checked σ ε α) := by
  intro s b s' he
  cases he
  exact h s

theorem Yields.ite {p : Prop} [Decidable p] (hx : Yields P x)
    (hy : Yields P y) : Yields P (if p then x else y) :=
  iteInduction (fun _ => hx) fun _ => hy

/-- The second part goes on from what the first part told. -/
theorem Yields.bind (hx : Yields P x)
    (hf : ∀ a s b s', P a s → (f a).exec s = (.ok b, s') → P' b s') : Yields P' (x >>= f) := by
  intro s b s' h
  rw [exec_bind] at h
  rcases he : x.exec s with ⟨r, s₁⟩
  rw [he] at h
  cases r with
  | error e => cases h
  | ok a => exact hf a s₁ b s' (hx s a s₁ he) h

theorem yields_bind (hf : ∀ a, Yields P' (f a)) : Yields P' (x >>= f) :=
  Yields.bind (P := fun _ _ => True) (fun _ _ _ _ => trivial) fun a s b s' _ => hf a s b s'

/-- The same for a first part whose outcome is looked at. -/
theorem Yields.bind_attempt {f : Except ε α → Checked σ ε β} (hx : Yields P x)
    (hok : ∀ a s b s', P a s → (f (.ok a)).exec s = (.ok b, s') → P' b s')
    (her : ∀ e, Yields P' (f (.error e))) : Yields P' (x.attempt >>= f) := by
  intro s b s' h
  have ha : x.attempt.exec s = (.ok (x.exec s).1, (x.exec s).2) := rfl
  rw [exec_bind_ok ha] at h
  rcases he : x.exec s with ⟨r, s₁⟩
  rw [he] at h
  cases r with
  | error e => exact her e s₁ b s' h
  | ok a => exact hok a s₁ b s' (hx s a s₁ he) h

/-- The steps of a second part that uses what the first part told. -/
theorem Yields.steps_bind [IsTrans σ R] (hP : Yields P x) (hx : Steps R x)
    (hf : ∀ a s, P a s → R s ((f a).exec s).2) : Steps R (x >>= f) := by
  intro s
  have hfr := hx s
  rw [exec_bind]
  rcases he : x.exec s with ⟨r, s'⟩
  rw [he] at hfr
  cases r with
  | error e => exact hfr
  | ok a => exact IsTrans.trans _ _ _ hfr (hf a s' (hP s a s' he))

/-- Where a computation goes, and what it tells. -/
theorem Yields.wp (hP : Yields P x) (hx : Steps R x) :
    Checked.wp x (fun r s' => R s s' ∧ ∀ a, r = .ok a → P a s') s := by
  refine ⟨hx s, fun a ha => hP s a _ ?_⟩
  rw [← ha]

end Yields

/-! ### Computations that cannot fail -/

/-- A computation that succeeds from every state. -/
def Total (x : Checked σ ε α) : Prop := ∀ s, ∃ a s', x.exec s = (.ok a, s')

section Total

variable {x : Checked σ ε α} {f : α → Checked σ ε β}

theorem total_pure (a : α) : Total (pure a : Checked σ ε α) := fun s => ⟨a, s, rfl⟩

theorem total_attempt (x : Checked σ ε α) : Total x.attempt :=
  fun s => ⟨(x.exec s).1, (x.exec s).2, rfl⟩

section
variable (hx : Total x)
include hx

theorem Total.bind (hf : ∀ a, Total (f a)) : Total (x >>= f) := by
  intro s
  obtain ⟨a, s', he⟩ := hx s
  rw [exec_bind_ok he]
  exact hf a s'

theorem Total.ite {p : Prop} [Decidable p] (hy : Total y) : Total (if p then x else y) :=
  iteInduction (fun _ => hx) fun _ => hy

/-- Behind a first part that cannot fail. -/
theorem Total.wp_bind {Q : Except ε β → σ → Prop} (hok : ∀ a s', wp (f a) Q s') :
    wp (x >>= f) Q s := by
  obtain ⟨a, s', he⟩ := hx s
  have hr := hok a s'
  unfold wp at hr ⊢
  rwa [exec_bind_ok he]

/-- What cannot fail is specified by its successes. -/
theorem Total.wp_and {P Q : Except ε α → σ → Prop} (hP : wp x P s)
    (hok : ∀ a s', P (.ok a) s' → Q (.ok a) s') : wp x Q s := by
  obtain ⟨a, s', he⟩ := hx s
  have hd := hok a s' (hP.of_exec he)
  unfold wp
  rwa [he]

end

end Total

end Checked

end R9P.Base
