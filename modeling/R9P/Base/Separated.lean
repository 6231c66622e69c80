import Mathlib.Tactic.Common

/-!
# Names behind separators

Library `Base`. A list of names written one behind the other, each behind a separator that no
name contains. The names are read back by splitting, and what begins with the writing of some
names, up to a separator, begins with those names.
-/

namespace R9P.Base
open List (cons_append mem_cons mem_cons_of_mem mem_cons_self not_mem_nil)

variable {α : Type} {sep : α} {names : List (List α)} {a b : List (List α)}

/-- Every name behind a separator. -/
def separated (sep : α) (names : List (List α)) : List α := names.flatMap (sep :: ·)

/-- No name contains the separator. -/
def Avoids (sep : α) (names : List (List α)) : Prop := ∀ name ∈ names, sep ∉ name

theorem Avoids.tail {name : List α} (h : Avoids sep (name :: names)) :
    Avoids sep names := fun other ho => h other (mem_cons_of_mem _ ho)

theorem separated_cons (name : List α) (names : List (List α)) :
    separated sep (name :: names) = sep :: (name ++ separated sep names) := rfl

theorem separated_append (a b : List (List α)) :
    separated sep (a ++ b) = separated sep a ++ separated sep b := List.flatMap_append

/-- A text ends here or goes on with a separator. -/
def Closed (sep : α) (text : List α) : Prop := text = [] ∨ text.head? = some sep

theorem closed_separated (names : List (List α)) : Closed sep (separated sep names) := by
  cases names with
  | nil => exact .inl rfl
  | cons name names => exact .inr rfl

theorem Closed.append {a b : List α} (ha : Closed sep a) (hb : Closed sep b) :
    Closed sep (a ++ b) := by
  rcases ha with rfl | ha
  · exact hb
  · cases a with
    | nil => cases ha
    | cons x a => exact .inr ha

/-- A name ends at the first separator. -/
theorem append_inj_of_closed {a b x y : List α} (ha : sep ∉ a) (hb : sep ∉ b) (hx : Closed sep x)
    (hy : Closed sep y) (h : a ++ x = b ++ y) : a = b ∧ x = y := by
  induction a generalizing b with
  | nil =>
    cases b with
    | nil => exact ⟨rfl, h⟩
    | cons c b =>
      rw [List.nil_append] at h
      rcases hx with rfl | hx
      · cases h
      · rw [h, cons_append, List.head?_cons] at hx
        cases hx
        exact absurd mem_cons_self hb
  | cons c a ih =>
    cases b with
    | nil =>
      rw [List.nil_append] at h
      rcases hy with rfl | hy
      · cases h
      · rw [← h, cons_append, List.head?_cons] at hy
        cases hy
        exact absurd mem_cons_self ha
    | cons d b =>
      rw [cons_append, cons_append, List.cons.injEq] at h
      obtain ⟨rfl, h⟩ := h
      obtain ⟨rfl, rfl⟩ := ih (fun hm => ha (mem_cons_of_mem _ hm))
        (fun hm => hb (mem_cons_of_mem _ hm)) h
      exact ⟨rfl, rfl⟩

/-- What begins with the writing of names and then ends or goes on with a separator begins
with those names. -/
theorem separated_prefix {rest : List α} (ha : Avoids sep a)
    (hb : Avoids sep b) (hr : Closed sep rest) (h : separated sep b = separated sep a ++ rest) :
    ∃ c, b = a ++ c ∧ rest = separated sep c := by
  induction a generalizing b with
  | nil => exact ⟨b, rfl, h.symm⟩
  | cons name a ih =>
    cases b with
    | nil => cases h
    | cons other b =>
      rw [separated_cons, separated_cons, cons_append, List.append_assoc, List.cons.injEq] at h
      obtain ⟨rfl, ht⟩ := append_inj_of_closed (hb other mem_cons_self)
        (ha name mem_cons_self) (closed_separated b) ((closed_separated a).append hr) h.2
      obtain ⟨c, rfl, hc⟩ := ih ha.tail hb.tail ht
      exact ⟨c, rfl, hc⟩

theorem separated_injective (ha : Avoids sep a) (hb : Avoids sep b)
    (h : separated sep a = separated sep b) : a = b := by
  obtain ⟨c, rfl, hc⟩ := separated_prefix hb ha (.inl rfl) (h.trans (List.append_nil _).symm)
  cases c with
  | nil => exact List.append_nil b
  | cons name c => cases hc

theorem intercalate_eq_separated (name : List α) (names : List (List α)) :
    [sep].intercalate (name :: names) = name ++ separated sep names := by
  induction names generalizing name with
  | nil => simp [List.intercalate, separated]
  | cons next names ih =>
    rw [separated_cons, ← ih next]
    simp [List.intercalate]

section SplitOn

variable [BEq α] [LawfulBEq α]

/-- Splitting reads the names back, behind the empty one before the first separator. -/
theorem splitOn_separated (h : Avoids sep names) :
    (separated sep names).splitOn sep = [] :: names := by
  have hw : [sep].intercalate ([] :: names) = separated sep names :=
    intercalate_eq_separated [] names
  rw [← hw, List.splitOn_intercalate sep _ (List.cons_ne_nil _ _)]
  intro name hn
  rcases mem_cons.mp hn with rfl | hn
  · exact not_mem_nil
  · exact h name hn

theorem separated_of_splitOn {text : List α}
    (h : text.splitOn sep = [] :: names) : text = separated sep names := by
  rw [← @List.intercalate_splitOn _ text _ _ sep, h, intercalate_eq_separated]
  rfl

theorem splitOn_cons_self (text : List α) : (sep :: text).splitOn sep = [] :: text.splitOn sep :=
  List.splitOn_append_cons_self_of_not_mem not_mem_nil text

/-- The parts of a text are free of the separator. -/
theorem avoids_splitOn (sep : α) (text : List α) : Avoids sep (text.splitOn sep) := by
  induction text with
  | nil =>
    intro name hn
    rw [List.splitOn_nil, List.mem_singleton] at hn
    rw [hn]
    exact not_mem_nil
  | cons x text ih =>
    intro name hn
    rw [List.splitOn_cons_eq_if_modifyHead] at hn
    split at hn
    · rcases mem_cons.mp hn with rfl | hn
      · exact not_mem_nil
      · exact ih name hn
    · next hx =>
      obtain ⟨first, rest, hp⟩ := List.exists_cons_of_ne_nil (List.splitOn_ne_nil sep text)
      rw [hp, List.modifyHead_cons] at hn
      rw [hp] at ih
      rcases mem_cons.mp hn with rfl | hn
      · intro hm
        rcases mem_cons.mp hm with rfl | hm
        · exact hx (beq_self_eq_true sep)
        · exact ih first mem_cons_self hm
      · exact ih name (mem_cons_of_mem _ hn)

end SplitOn

end R9P.Base
