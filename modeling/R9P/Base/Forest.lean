import Mathlib.Data.Finset.Card
import Mathlib.Data.List.Basic
import Mathlib.Data.List.Induction

/-!
# Forests by their links

Library `Base`. A table of nodes in which a node names its children is a forest when nothing
is named twice. Paths down from a node, what lies below it, and how two nodes above a third
are related.
-/

namespace R9P.Base

/-- The child of a node under a name. -/
abbrev Links (ι ν : Type) := ι → ν → Option ι

namespace Links

variable {ι ν : Type} {links : Links ι ν} {top i p c : ι} {names : List ν} {n : ν}

/-- The node at the end of a path. -/
def follow (links : Links ι ν) : ι → List ν → Option ι
  | i, [] => some i
  | i, n :: names => (links i n).bind fun c => follow links c names

theorem follow_cons : links.follow i (n :: names) =
    (links i n).bind fun c => links.follow c names := rfl

theorem follow_append (front back : List ν) :
    links.follow i (front ++ back) = (links.follow i front).bind fun c => links.follow c back := by
  induction front generalizing i with
  | nil => rfl
  | cons n front ih =>
    rw [List.cons_append, follow_cons, follow_cons]
    cases links i n with
    | none => rfl
    | some c => exact ih

theorem follow_concat : links.follow i (names ++ [n]) = some c ↔
    ∃ p, links.follow i names = some p ∧ links p n = some c := by
  rw [follow_append, Option.bind_eq_some_iff]
  constructor
  · rintro ⟨p, hp, hc⟩
    rw [follow_cons, Option.bind_eq_some_iff] at hc
    obtain ⟨c', hl, hc'⟩ := hc
    cases hc'
    exact ⟨p, hp, hl⟩
  · rintro ⟨p, hp, hl⟩
    refine ⟨p, hp, ?_⟩
    rw [follow_cons, hl]
    rfl

/-- A node lies at or below another. -/
def Within (links : Links ι ν) (top i : ι) : Prop := ∃ names, links.follow top names = some i

theorem Within.refl (links : Links ι ν) (top : ι) : links.Within top top := ⟨[], rfl⟩

theorem Within.child (h : links.Within top p) (hl : links p n = some c) : links.Within top c := by
  obtain ⟨names, hn⟩ := h
  exact ⟨names ++ [n], follow_concat.mpr ⟨p, hn, hl⟩⟩

theorem Within.trans {mid : ι} (h : links.Within top mid) (hm : links.Within mid i) :
    links.Within top i := by
  obtain ⟨front, hf⟩ := h
  obtain ⟨back, hbc⟩ := hm
  refine ⟨front ++ back, ?_⟩
  rw [follow_append, hf]
  exact hbc

section

variable (h : links.Within top i)
include h

/-- What holds of a node and passes to children holds below the node. -/
theorem Within.rec_on {P : ι → Prop} (base : P top)
    (step : ∀ p n c, links.Within top p → P p → links p n = some c → P c) : P i := by
  obtain ⟨names, hn⟩ := h
  induction names using List.reverseRecOn generalizing i with
  | nil =>
    cases hn
    exact base
  | append_singleton names n ih =>
    obtain ⟨p, hp, hl⟩ := follow_concat.mp hn
    exact step p n i ⟨names, hp⟩ (ih hp) hl

/-- A node below another is that one, or the child of one below it. -/
theorem Within.last : i = top ∨ ∃ p n, links.Within top p ∧ links p n = some i := by
  refine h.rec_on (P := fun i => i = top ∨ ∃ p n, links.Within top p ∧ links p n = some i)
    (.inl rfl) ?_
  intro p n c hp _ hl
  exact .inr ⟨p, n, hp, hl⟩

/-- With fewer links there is less below a node. -/
theorem Within.mono {more : Links ι ν}
    (hm : ∀ p n c, links p n = some c → more p n = some c) : more.Within top i := by
  refine h.rec_on (P := more.Within top) (.refl more top) ?_
  intro p n c _ hp hl
  exact hp.child (hm p n c hl)

/-- Where the links to one node are lost, that node is a top of its own. -/
theorem Within.cut {fewer : Links ι ν} {lost : ι}
    (hf : ∀ p n c, links p n = some c → fewer p n = some c ∨ c = lost) :
    fewer.Within top i ∨ fewer.Within lost i := by
  refine h.rec_on (P := fun i => fewer.Within top i ∨ fewer.Within lost i)
    (.inl (.refl fewer top)) ?_
  intro p n c _ hp hl
  rcases hf p n c hl with hl' | rfl
  · exact hp.imp (fun h => h.child hl') fun h => h.child hl'
  · exact .inr (.refl fewer c)

end

/-- With more links there are more paths. -/
theorem follow_mono {more : Links ι ν} (h : links.follow top names = some i)
    (hm : ∀ p n c, links p n = some c → more p n = some c) :
    more.follow top names = some i := by
  induction names generalizing top with
  | nil => exact h
  | cons n names ih =>
    obtain ⟨c, hl, hr⟩ := Option.bind_eq_some_iff.mp h
    rw [follow_cons, hm top n c hl]
    exact ih hr

/-- Where the links to one node are lost, the paths that do not pass it stay. -/
theorem follow_avoid {fewer : Links ι ν} {lost : ι} (h : links.follow top names = some i)
    (hf : ∀ p n c, links p n = some c → fewer p n = some c ∨ c = lost)
    (hi : ¬ links.Within lost i) : fewer.follow top names = some i := by
  induction names using List.reverseRecOn generalizing i with
  | nil => exact h
  | append_singleton names n ih =>
    obtain ⟨p, hp, hl⟩ := follow_concat.mp h
    have hk := ih hp fun hw => hi (hw.child hl)
    rcases hf p n i hl with hl' | rfl
    · exact follow_concat.mpr ⟨p, hk, hl'⟩
    · exact absurd (.refl links i) hi

/-- Links that agree below a node have the same paths from it. -/
theorem follow_congr {other : Links ι ν}
    (h : ∀ p, links.Within top p → ∀ n, other p n = links p n) :
    other.follow top names = links.follow top names := by
  induction names generalizing top with
  | nil => rfl
  | cons n names ih =>
    rw [follow_cons, follow_cons, h top (Within.refl links top)]
    cases hl : links top n with
    | none => rfl
    | some c =>
      refine ih fun p hp => h p ?_
      exact ((Within.refl links top).child hl).trans hp

/-- Nothing is named twice. -/
def Single (links : Links ι ν) : Prop :=
  ∀ p n q m c, links p n = some c → links q m = some c → p = q ∧ n = m

/-- A node that nothing names. -/
def Top (links : Links ι ν) (top : ι) : Prop := ∀ p n, links p n ≠ some top

section

variable (hsingle : links.Single)
include hsingle

/-- Above a node there is one line of nodes. -/
theorem Single.comparable {a b : ι} (ha : links.Within a i)
    (hb : links.Within b i) : links.Within a b ∨ links.Within b a := by
  revert hb
  refine ha.rec_on (P := fun i => links.Within b i → links.Within a b ∨ links.Within b a) .inr ?_
  intro p n c hp ih hl hc
  rcases hc.last with rfl | ⟨q, m, hq, hl'⟩
  · exact .inl (hp.child hl)
  · obtain ⟨rfl, _⟩ := hsingle p n q m c hl hl'
    exact ih hq

section
variable (ht : links.Top top)
include ht

/-- Of two nodes above a third, a top is above the other. -/
theorem Single.above {mid : ι} (hi : links.Within top i) (hm : links.Within mid i) :
    links.Within top mid := by
  revert hi
  refine hm.rec_on (P := fun i => links.Within top i → links.Within top mid) (fun hi => hi) ?_
  intro p n c _ ih hl hc
  rcases hc.last with rfl | ⟨q, m, hq, hl'⟩
  · exact absurd hl (ht p n)
  · obtain ⟨rfl, _⟩ := hsingle p n q m c hl hl'
    exact ih hq

/-- A node is below one top only. -/
theorem Single.top_unique {other : ι} (ho : links.Top other) (hi : links.Within top i)
    (hi' : links.Within other i) : other = top := by
  rcases (hsingle.above ht hi hi').last with heq | ⟨p, n, _, hl⟩
  · exact heq
  · exact absurd hl (ho p n)

/-- One path leads from a top to a node. -/
theorem Single.follow_inj {front back : List ν} (hf : links.follow top front = some i)
    (hbc : links.follow top back = some i) : front = back := by
  induction front using List.reverseRecOn generalizing i back with
  | nil =>
    cases hf
    cases back using List.reverseRecOn with
    | nil => rfl
    | append_singleton back m =>
      obtain ⟨q, _, hl⟩ := follow_concat.mp hbc
      exact absurd hl (ht q m)
  | append_singleton front n ih =>
    obtain ⟨p, hp, hl⟩ := follow_concat.mp hf
    cases back using List.reverseRecOn with
    | nil =>
      cases hbc
      exact absurd hl (ht p n)
    | append_singleton back m =>
      obtain ⟨q, hq, hl'⟩ := follow_concat.mp hbc
      obtain ⟨rfl, rfl⟩ := hsingle p n q m i hl hl'
      rw [ih hp hq]

/-- A node is below one child only. -/
theorem Single.sibling {a b : ι} {m : ν} (hp : links.Within top p) (ha : links p n = some a)
    (hb : links p m = some b) (hia : links.Within a i) (hib : links.Within b i) : n = m := by
  obtain ⟨names, hn⟩ := hp
  obtain ⟨front, hf⟩ := hia
  obtain ⟨back, hbc⟩ := hib
  have hpt : ∀ k d rest, links p k = some d → links.follow d rest = some i →
      links.follow top (names ++ k :: rest) = some i := by
    intro k d rest hd hr
    rw [follow_append, hn, Option.bind_some, follow_cons, hd]
    exact hr
  have heq := hsingle.follow_inj ht (hpt n a front ha hf) (hpt m b back hb hbc)
  exact (List.cons_eq_cons.mp (List.append_cancel_left heq)).1

/-- Nothing is below its own child. -/
theorem Single.not_within_child (hp : links.Within top p) (hl : links p n = some c) :
    ¬ links.Within c p := by
  rintro ⟨back, hbc⟩
  obtain ⟨names, hn⟩ := hp
  have hpt : links.follow top (names ++ n :: back) = some p := by
    rw [follow_append, hn, Option.bind_some, follow_cons, hl]
    exact hbc
  exact List.cons_ne_nil n back (List.append_right_eq_self.mp (hsingle.follow_inj ht hpt hn))

/-- What is above a node and below it is the node. -/
theorem Single.antisymm {j : ι} (hi : links.Within top i) (hij : links.Within i j)
    (hji : links.Within j i) : i = j := by
  obtain ⟨names, hn⟩ := hi
  obtain ⟨front, hf⟩ := hij
  obtain ⟨back, hbc⟩ := hji
  have hpt : links.follow top (names ++ (front ++ back)) = some i := by
    rw [follow_append, hn, Option.bind_some, follow_append, hf]
    exact hbc
  have hnl := List.append_eq_nil_iff.mp
    (List.append_right_eq_self.mp (hsingle.follow_inj ht hpt hn))
  rw [hnl.1] at hf
  exact Option.some.inj hf

/-- A path meets no node twice, so that it is no longer than there are nodes. -/
theorem Single.length_lt (nodes : Finset ι) (hn : ∀ i, links.Within top i → i ∈ nodes)
    (hi : links.follow top names = some i) : names.length < nodes.card := by
  -- Every start of the path ends in a node of its own.
  have hf : ∀ k, ∃ j, links.follow top (names.take k) = some j := by
    intro k
    have hs := hi
    rw [← List.take_append_drop k names, follow_append, Option.bind_eq_some_iff] at hs
    obtain ⟨j, hj, _⟩ := hs
    exact ⟨j, hj⟩
  choose node hat using hf
  have hc : (Finset.range (names.length + 1)).card ≤ nodes.card := by
    refine Finset.card_le_card_of_injOn node ?_ ?_
    · intro k _
      exact hn _ ⟨_, hat k⟩
    · intro k hk l hl heq
      have hbc := hat l
      rw [← heq] at hbc
      have hln := congrArg List.length (hsingle.follow_inj ht (hat k) hbc)
      rw [List.length_take, List.length_take] at hln
      rw [Finset.mem_coe, Finset.mem_range] at hk hl
      omega
  rw [Finset.card_range] at hc
  omega

end

end

/-! ### Nodes that stay where they are -/

section Later

variable {later : Links ι ν} {P : ι → Prop}

section

variable (hold : ∀ p n c, later p n = some c → P c → links p n = some c ∧ P p)
include hold

/-- A path that leads to a node later led to it before, if nodes that were there have got no new
place. -/
theorem follow_back
    (h : later.follow top names = some i) (hi : P i) : links.follow top names = some i := by
  induction names using List.reverseRecOn generalizing i with
  | nil => exact h
  | append_singleton names n ih =>
    obtain ⟨p, hp, hl⟩ := follow_concat.mp h
    obtain ⟨hl', hpp⟩ := hold p n i hl hi
    exact follow_concat.mpr ⟨p, ih hp hpp, hl'⟩

/-- What is below a node later was below it, if nodes that were there have got no new place. -/
theorem Within.back (h : later.Within top i) (hi : P i) : links.Within top i := by
  obtain ⟨names, hn⟩ := h
  exact ⟨names, follow_back hold hn hi⟩

end

/-- What is still in the tree is below the nodes it was below. -/
theorem Single.forward (hsingle : links.Single) (ht : links.Top top)
    (hold : ∀ p n c, later p n = some c → P c → links p n = some c ∧ P p) {mid : ι}
    (h : later.Within top i) (hi : P i) (hm : links.Within mid i) : later.Within mid i := by
  revert hi hm
  refine h.rec_on (P := fun i => P i → links.Within mid i → later.Within mid i) ?_ ?_
  · intro _ hm
    rcases hm.last with rfl | ⟨p, n, _, hl⟩
    · exact Within.refl later _
    · exact absurd hl (ht p n)
  · intro p n c _ ih hl hc hm
    obtain ⟨hl', hp⟩ := hold p n c hl hc
    rcases hm.last with rfl | ⟨q, m, hq, hl''⟩
    · exact Within.refl later _
    · obtain ⟨rfl, _⟩ := hsingle p n q m c hl' hl''
      exact (ih hp hq).child hl

end Later

end Links

end R9P.Base
