import Mathlib.Tactic.Common

/-!
# Labelled transition systems and their runs

Library `Base`. A system is given by its initial states and its labelled steps. A run
records the labels it took, newest first, so that a statement about the past of a state
is a statement about the tail of a list. What one step preserves, every run preserves.
-/

namespace R9P.Base

/-- A labelled transition system. -/
structure System (σ ℓ : Type) where
  initial : σ → Prop
  step : σ → ℓ → σ → Prop

namespace System

variable {σ ℓ : Type}

/-- Finite runs with their history, newest label first. -/
inductive Run (M : System σ ℓ) : List ℓ → σ → Prop
  | start {s : σ} (initial : M.initial s) : Run M [] s
  | next {history : List ℓ} {s s' : σ} {label : ℓ} (run : Run M history s)
      (step : M.step s label s') : Run M (label :: history) s'

variable {M : System σ ℓ} {history : List ℓ} {s : σ}

/-- A property of history and state that holds initially and survives every step holds
after every run. -/
theorem Run.invariant {I : List ℓ → σ → Prop} (run : M.Run history s)
    (initial : ∀ s, M.initial s → I [] s)
    (step : ∀ history s label s', M.Run history s → I history s → M.step s label s' →
      I (label :: history) s') : I history s := by
  induction run with
  | start hs => exact initial _ hs
  | next hr hs ih => exact step _ _ _ _ hr ih hs

/-- What a state inherits from its successor holds at every earlier state of the run. -/
theorem Run.earlier {P : σ → Prop} {newer older : List ℓ} (run : M.Run (newer ++ older) s)
    (hs : P s)
    (back : ∀ newer s label s', M.Run (newer ++ older) s → M.step s label s' → P s' → P s) :
    ∃ s', M.Run older s' ∧ P s' := by
  induction newer generalizing s with
  | nil => exact ⟨s, run, hs⟩
  | cons label newer ih =>
    cases run with
    | next hr hst => exact ih hr (back newer _ _ _ hr hst hs)

variable {next : σ → ℓ → Option σ} {labels : List ℓ}

/-- A list of labels taken one after the other by a function that computes the steps. -/
theorem Run.foldlM {s' : σ} (run : M.Run history s)
    (hn : ∀ s, ∀ label ∈ labels, ∀ s', next s label = some s' → M.step s label s')
    (h : labels.foldlM next s = some s') : M.Run (labels.reverse ++ history) s' := by
  induction labels generalizing history s with
  | nil =>
    cases h
    exact run
  | cons label labels ih =>
    obtain ⟨s₁, hs₁, h⟩ := Option.bind_eq_some_iff.mp h
    rw [List.reverse_cons, List.append_assoc, List.singleton_append]
    refine ih (run.next (hn s label List.mem_cons_self s₁ hs₁)) ?_ h
    exact fun s later hl => hn s later (List.mem_cons_of_mem _ hl)

/-- The same from an initial state. -/
theorem Run.of_foldlM {s' : σ} (initial : M.initial s)
    (hn : ∀ s, ∀ label ∈ labels, ∀ s', next s label = some s' → M.step s label s')
    (h : labels.foldlM next s = some s') : M.Run labels.reverse s' := by
  have run := (Run.start initial).foldlM hn h
  rwa [List.append_nil] at run

/-- The same with what is looked at in the end. -/
theorem Run.of_view {β : Type} {view : σ → β} {b : β} (initial : M.initial s)
    (hn : ∀ s, ∀ label ∈ labels, ∀ s', next s label = some s' → M.step s label s')
    (h : (labels.foldlM next s).map view = some b) :
    ∃ s', M.Run labels.reverse s' ∧ view s' = b := by
  obtain ⟨s', hs', hv⟩ := Option.map_eq_some_iff.mp h
  exact ⟨s', .of_foldlM initial hn hs', hv⟩

/-- The runs of a system that go on from a state. -/
def startingAt (M : System σ ℓ) (s : σ) : System σ ℓ where
  initial := (· = s)
  step := M.step

/-- The steps of a system that meet a condition on the label and the state before it. -/
def restrict (M : System σ ℓ) (condition : σ → ℓ → Prop) : System σ ℓ where
  initial := M.initial
  step s label s' := condition s label ∧ M.step s label s'

/-- A restricted run is a run. -/
theorem Run.of_restrict {condition : σ → ℓ → Prop} (run : (M.restrict condition).Run history s) :
    M.Run history s := by
  induction run with
  | start hs => exact .start hs
  | next _ hs ih => exact .next ih hs.2

end System

end R9P.Base
