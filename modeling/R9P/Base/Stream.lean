import Mathlib.Data.List.Basic

/-!
# Reading from a stream

Library `Base`. A reader is what its calls will bring: chunks of any size and failures. A call
takes at most as many symbols as are asked for and leaves the rest of a chunk to the next; a call
that brings nothing is the end of the stream. `fill` is the loop around such calls that goes on
until enough has come.
-/

namespace R9P.Base

/-- What one call brings. -/
inductive Arrival (α ε : Type) where
  | chunk (symbols : List α)
  | failed (error : ε)
  deriving DecidableEq, Repr

/-- Why a loop around reads stopped. -/
inductive Ended (ε : Type) where
  | full
  | eof
  | failed (error : ε)
  deriving DecidableEq, Repr

namespace Arrival

variable {α ε : Type}

/-- The symbols that a call brings. -/
def symbols : Arrival α ε → List α
  | chunk symbols => symbols
  | failed _ => []

/-- What is left of a chunk when the first `count` symbols are taken. -/
def leftover (count : Nat) (chunk : List α) (reader : List (Arrival α ε)) : List (Arrival α ε) :=
  if chunk.length = count then reader else .chunk (chunk.drop count) :: reader

/-- Read until `need` symbols have come; failures that `retry` accepts are passed over. -/
def fill (retry : ε → Bool) : Nat → List (Arrival α ε) → List α × Ended ε × List (Arrival α ε)
  | 0, reader => ([], .full, reader)
  | _ + 1, [] => ([], .eof, [])
  | need + 1, chunk symbols :: reader =>
    if symbols.isEmpty then ([], .eof, reader)
    else if symbols.length < need + 1 then
      let (more, ended, rest) := fill retry (need + 1 - symbols.length) reader
      (symbols ++ more, ended, rest)
    else (symbols.take (need + 1), .full, leftover (need + 1) symbols reader)
  | need + 1, failed error :: reader =>
    if retry error then fill retry (need + 1) reader else ([], .failed error, reader)

/-- All that a reader brings. -/
def content (reader : List (Arrival α ε)) : List α := reader.flatMap symbols

@[simp] theorem content_chunk (symbols : List α) (reader : List (Arrival α ε)) :
    content (.chunk symbols :: reader) = symbols ++ content reader := rfl

/-- No call before the last brings nothing, and none fails for good. -/
def Healthy (retry : ε → Bool) (reader : List (Arrival α ε)) : Prop :=
  ∀ arrival ∈ reader,
    match arrival with
    | chunk symbols => symbols ≠ []
    | failed error => retry error = true

variable {retry : ε → Bool} {reader : List (Arrival α ε)} {symbols : List α}

theorem healthy_chunk :
    Healthy retry (.chunk symbols :: reader) ↔ symbols ≠ [] ∧ Healthy retry reader :=
  List.forall_mem_cons

theorem healthy_failed {error : ε} :
    Healthy retry (.failed error :: reader) ↔ retry error = true ∧ Healthy retry reader :=
  List.forall_mem_cons

theorem content_leftover {count : Nat} (h : count ≤ symbols.length) :
    content (leftover count symbols reader) = (symbols ++ content reader).drop count := by
  unfold leftover
  rw [List.drop_append_of_le_length h]
  by_cases hl : symbols.length = count
  · rw [if_pos hl, List.drop_of_length_le (by omega), List.nil_append]
  · rw [if_neg hl, content_chunk]

section
variable (h : Healthy retry reader)
include h

theorem Healthy.leftover {count : Nat} (hc : count ≤ symbols.length) :
    Healthy retry (leftover count symbols reader) := by
  unfold Arrival.leftover
  by_cases hl : symbols.length = count
  · rwa [if_pos hl]
  · rw [if_neg hl, healthy_chunk]
    refine ⟨?_, h⟩
    intro hn
    have := congrArg List.length hn
    rw [List.length_drop, List.length_nil] at this
    omega

/-- Where enough is to come, the loop takes exactly that much off the front. -/
theorem fill_full {need : Nat} (hn : need ≤ (content reader).length) :
    ∃ rest, fill retry need reader = ((content reader).take need, .full, rest) ∧
      content rest = (content reader).drop need ∧ Healthy retry rest := by
  induction reader generalizing need with
  | nil =>
    have hz : need = 0 := Nat.le_zero.mp hn
    subst hz
    exact ⟨[], rfl, rfl, h⟩
  | cons arrival reader ih =>
    cases need with
    | zero => exact ⟨_, rfl, rfl, h⟩
    | succ need =>
      cases arrival with
      | failed error =>
        obtain ⟨hr, h⟩ := healthy_failed.mp h
        rw [fill, if_pos hr]
        exact ih h hn
      | chunk symbols =>
        obtain ⟨hne, h⟩ := healthy_chunk.mp h
        rw [content_chunk] at hn ⊢
        rw [fill, if_neg (by rwa [List.isEmpty_iff])]
        by_cases hlt : symbols.length < need + 1
        · rw [List.length_append] at hn
          obtain ⟨rest, hf, hc, hrs⟩ :=
            @ih h (need + 1 - symbols.length) (by omega)
          have ht : symbols.take (need + 1) = symbols := List.take_of_length_le (by omega)
          have hd : symbols.drop (need + 1) = [] := List.drop_of_length_le (by omega)
          rw [if_pos hlt, hf]
          refine ⟨rest, ?_, ?_, hrs⟩
          · rw [List.take_append, ht]
          · rw [hc, List.drop_append, hd, List.nil_append]
        · rw [if_neg hlt]
          refine ⟨leftover (need + 1) symbols reader, ?_, content_leftover (by omega),
            h.leftover (by omega)⟩
          rw [List.take_append_of_le_length (by omega)]

/-- Where too little is to come, the loop takes it all and meets the end. -/
theorem fill_eof {need : Nat} (hn : (content reader).length < need) :
    fill retry need reader = (content reader, .eof, []) := by
  induction reader generalizing need with
  | nil =>
    cases need with
    | zero => exact absurd hn (Nat.not_lt_zero _)
    | succ need => rfl
  | cons arrival reader ih =>
    cases need with
    | zero => exact absurd hn (Nat.not_lt_zero _)
    | succ need =>
      cases arrival with
      | failed error =>
        obtain ⟨hr, h⟩ := healthy_failed.mp h
        rw [fill, if_pos hr]
        exact ih h hn
      | chunk symbols =>
        obtain ⟨hne, h⟩ := healthy_chunk.mp h
        rw [content_chunk, List.length_append] at hn
        have hm := @ih h (need + 1 - symbols.length) (by omega)
        rw [fill, if_neg (by rwa [List.isEmpty_iff]), if_pos (by omega), hm]
        rfl

end

end Arrival

end R9P.Base
