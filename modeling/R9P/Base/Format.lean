import R9P.Base.Checked

/-!
# Exact formats over a cursor

Library `Base`. A decoder reads values off a cursor over a finite sequence. `Exact`
says that it accepts precisely the sequences a format relates to its values: every
encoding is read back whatever follows it, and nothing else is accepted. Exactness is
closed under sequencing, refusal, repetition and conditionals, so the exactness of a
composite layout follows from that of its fields.
-/

namespace R9P.Base

/-- A reading position in a finite sequence, never past its end. -/
structure Cursor (β : Type) where
  data : List β
  position : Nat
  position_le : position ≤ data.length

namespace Cursor

variable {β : Type}

/-- Cursor at the start of a sequence. -/
def new (data : List β) : Cursor β := ⟨data, 0, Nat.zero_le _⟩

/-- Number of unread items. -/
def remaining (c : Cursor β) : Nat := c.data.length - c.position

/-- The unread suffix. -/
def rest (c : Cursor β) : List β := c.data.drop c.position

@[simp] theorem rest_new (data : List β) : (new data).rest = data := rfl

/-- The unread suffix has as many items as the cursor counts. -/
theorem length_rest (c : Cursor β) : c.rest.length = c.remaining := by
  rw [rest, List.length_drop, remaining]

/-- Nothing remains exactly when the unread suffix is empty. -/
theorem remaining_eq_zero_iff (c : Cursor β) : c.remaining = 0 ↔ c.rest = [] := by
  rw [← length_rest, List.length_eq_zero_iff]

end Cursor

/-- Reads a value off a cursor, or stops with an error. -/
abbrev Decoder (β ε α : Type) := StateT (Cursor β) (Except ε) α

namespace Decoder

variable {β ε α γ : Type}

/-- Read the next `len` items, failing when fewer remain. -/
def take (len : Nat) (e : ε) : Decoder β ε (List β) := fun c =>
  if h : c.position + len ≤ c.data.length then
    .ok ((c.data.drop c.position).take len, ⟨c.data, c.position + len, h⟩)
  else .error e

/-- Stop with the error unless exactly `count` items are unread. -/
def expectRemaining (count : Nat) (e : ε) : Decoder β ε Unit := fun c =>
  if count ≠ c.remaining then .error e else .ok ((), c)

/-- Continue only with a successful check. -/
def check (x : Except ε α) : Decoder β ε α := fun c => x.map (·, c)

/-- Stop with the error when the condition holds. -/
def refuse (p : Prop) [Decidable p] (e : ε) : Decoder β ε Unit := if p then throw e else pure ()

/-- Read the same kind of value `n` times. -/
def replicate (d : Decoder β ε α) : Nat → Decoder β ε (List α)
  | 0 => pure []
  | n + 1 => do
    let a ← d
    let rest ← replicate d n
    pure (a :: rest)

end Decoder

/-- The decoder accepts exactly the sequences related to a value, and stops behind them. -/
structure Exact {β ε α : Type} (d : Decoder β ε α) (E : α → List β → Prop) : Prop where
  complete : ∀ {a bs}, E a bs → ∀ (c : Cursor β) (tail : List β), c.rest = bs ++ tail →
    ∃ c', d c = .ok (a, c') ∧ c'.rest = tail
  sound : ∀ {c : Cursor β} {a c'}, d c = .ok (a, c') → ∃ bs, E a bs ∧ c.rest = bs ++ c'.rest

namespace Exact

variable {β ε α γ : Type} {d : Decoder β ε α} {E F : α → List β → Prop}

/-- Equivalent formats have the same exact decoders. -/
theorem congr (h : Exact d E) (hEF : ∀ a bs, E a bs ↔ F a bs) : Exact d F := by
  constructor
  · intro a bs hf
    exact h.complete ((hEF a bs).mpr hf)
  · intro c a c' hd
    obtain ⟨bs, he, hr⟩ := h.sound hd
    exact ⟨bs, (hEF a bs).mp he, hr⟩

/-- Returning a value reads nothing. -/
theorem pure (a : α) : Exact (Pure.pure a : Decoder β ε α) (fun b bs => b = a ∧ bs = []) := by
  constructor
  · rintro b bs ⟨rfl, rfl⟩ c tail hr
    exact ⟨c, rfl, hr⟩
  · intro c b c' hd
    cases hd
    exact ⟨[], ⟨rfl, rfl⟩, rfl⟩

/-- A sequence reads the concatenation of its parts. -/
theorem bind {k : α → Decoder β ε γ} {G : α → γ → List β → Prop} (h : Exact d E)
    (hk : ∀ a, Exact (k a) (G a)) :
    Exact (d >>= k) (fun b bs => ∃ a xs ys, E a xs ∧ bs = xs ++ ys ∧ G a b ys) := by
  constructor
  · rintro b bs ⟨a, xs, ys, he, rfl, hg⟩ c tail hr
    rw [List.append_assoc] at hr
    obtain ⟨c₁, hd, hr₁⟩ := h.complete he c _ hr
    obtain ⟨c₂, hk₂, hr₂⟩ := (hk a).complete hg c₁ tail hr₁
    refine ⟨c₂, ?_, hr₂⟩
    change (d c >>= fun p => k p.1 p.2) = _
    rw [hd]
    exact hk₂
  · intro c b c' hd
    obtain ⟨⟨a, c₁⟩, hd₁, hk₁⟩ := bind_ok.mp hd
    obtain ⟨xs, he, hr₁⟩ := h.sound hd₁
    obtain ⟨ys, hg, hr₂⟩ := (hk a).sound hk₁
    refine ⟨xs ++ ys, ⟨a, xs, ys, he, rfl, hg⟩, ?_⟩
    rw [hr₁, hr₂, List.append_assoc]

/-- Building the result from the last value read adds nothing to the sequence. -/
theorem last (h : Exact d E) (f : α → γ) :
    Exact (d >>= fun a => Pure.pure (f a)) (fun b bs => ∃ a, E a bs ∧ b = f a) := by
  refine (h.bind fun a => .pure (f a)).congr ?_
  intro b bs
  constructor
  · rintro ⟨a, xs, ys, he, rfl, rfl, rfl⟩
    exact ⟨a, by rwa [List.append_nil], rfl⟩
  · rintro ⟨a, he, rfl⟩
    exact ⟨a, bs, [], he, (List.append_nil bs).symm, rfl, rfl⟩

/-- Mapping the value leaves the sequence read unchanged. -/
theorem map (f : α → γ) (h : Exact d E) : Exact (f <$> d) (fun b bs => ∃ a, E a bs ∧ b = f a) := by
  exact h.last f

/-- A decoder that always fails accepts nothing. -/
theorem throw (e : ε) : Exact (throw e : Decoder β ε α) (fun _ _ => False) := by
  constructor
  · intro a bs hf
    exact hf.elim
  · intro c a c' hd
    cases hd

/-- A conditional has the format of the branch taken. -/
theorem ite (p : Prop) [Decidable p] {d' : Decoder β ε α} (h : p → Exact d E)
    (h' : ¬ p → Exact d' F) :
    Exact (if p then d else d') (fun a bs => if p then E a bs else F a bs) := by
  split
  · next hp => simpa [hp] using h hp
  · next hp => simpa [hp] using h' hp

/-- Passing a refusal reads nothing. -/
theorem refuse (p : Prop) [Decidable p] (e : ε) :
    Exact (Decoder.refuse (β := β) p e) (fun _ bs => ¬ p ∧ bs = []) := by
  refine (Exact.ite p (fun _ => .throw e) (fun _ => .pure ())).congr ?_
  intro a bs
  by_cases hp : p
  all_goals simp [hp]

/-- A check reads nothing and passes its value on. -/
theorem check (x : Except ε α) :
    Exact (Decoder.check (β := β) x) (fun a bs => x = .ok a ∧ bs = []) := by
  constructor
  · rintro a bs ⟨hx, rfl⟩ c tail hr
    exact ⟨c, by rw [Decoder.check, hx]; rfl, hr⟩
  · intro c a c' hd
    cases x with
    | error e => cases hd
    | ok b =>
      cases hd
      exact ⟨[], ⟨rfl, rfl⟩, rfl⟩

/-- A fixed-length read accepts every sequence of that length. -/
theorem take (len : Nat) (e : ε) :
    Exact (Decoder.take (β := β) len e) (fun a bs => bs = a ∧ a.length = len) := by
  constructor
  · rintro a bs ⟨rfl, rfl⟩ c tail hr
    have hle : c.position + bs.length ≤ c.data.length := by
      have hl := congrArg List.length hr
      rw [Cursor.length_rest, List.length_append, Cursor.remaining] at hl
      have := c.position_le
      omega
    refine ⟨⟨c.data, c.position + bs.length, hle⟩, ?_, ?_⟩
    · simp only [Decoder.take, hle, ↓reduceDIte]
      rw [← Cursor.rest, hr, List.take_left]
    · change c.data.drop (c.position + bs.length) = tail
      rw [← List.drop_drop, ← Cursor.rest, hr, List.drop_left]
  · intro c a c' hd
    unfold Decoder.take at hd
    split at hd
    · next hle =>
      cases hd
      refine ⟨_, ⟨rfl, ?_⟩, ?_⟩
      · rw [List.length_take, List.length_drop]
        omega
      · change c.data.drop c.position = _ ++ c.data.drop (c.position + len)
        rw [← List.drop_drop, List.take_append_drop]
    · cases hd

end Exact

/-- The concatenation of the encodings of a list of values. -/
def Concat {β α : Type} (E : α → List β → Prop) : List α → List β → Prop
  | [], bs => bs = []
  | a :: rest, bs => ∃ xs ys, E a xs ∧ Concat E rest ys ∧ bs = xs ++ ys

namespace Concat

variable {β α : Type} {E : α → List β → Prop}

/-- With a functional encoding, the concatenation is that of the encoded values. -/
theorem iff_flatMap {ok : α → Prop} {enc : α → List β}
    (hE : ∀ a bs, E a bs ↔ ok a ∧ bs = enc a) (as : List α) (bs : List β) :
    Concat E as bs ↔ (∀ a ∈ as, ok a) ∧ bs = as.flatMap enc := by
  induction as generalizing bs with
  | nil => simp [Concat]
  | cons a rest ih =>
    simp only [Concat, hE, ih, List.mem_cons, forall_eq_or_imp, List.flatMap_cons]
    constructor
    · rintro ⟨xs, ys, ⟨ha, rfl⟩, ⟨hr, rfl⟩, rfl⟩
      exact ⟨⟨ha, hr⟩, rfl⟩
    · rintro ⟨⟨ha, hr⟩, rfl⟩
      exact ⟨_, _, ⟨ha, rfl⟩, ⟨hr, rfl⟩, rfl⟩

end Concat

/-- Repetition reads the concatenation of exactly `n` encodings. -/
theorem Exact.replicate {β ε α : Type} {d : Decoder β ε α} {E : α → List β → Prop}
    (h : Exact d E) (n : Nat) :
    Exact (d.replicate n) (fun as bs => as.length = n ∧ Concat E as bs) := by
  induction n with
  | zero =>
    refine (Exact.pure []).congr ?_
    intro as bs
    cases as with
    | nil => simp [Concat]
    | cons a rest => simp
  | succ n ih =>
    refine (h.bind fun a => ih.last fun rest => a :: rest).congr ?_
    intro as bs
    constructor
    · rintro ⟨a, xs, ys, he, rfl, rest, ⟨hl, hc⟩, rfl⟩
      exact ⟨by rw [List.length_cons, hl], xs, ys, he, hc, rfl⟩
    · rintro ⟨hl, hc⟩
      cases as with
      | nil => cases hl
      | cons a rest =>
        obtain ⟨xs, ys, he, hc, rfl⟩ := hc
        exact ⟨a, xs, ys, he, rfl, rest, ⟨by simpa using hl, hc⟩, rfl⟩

/-- A decoder applied to a whole sequence, with a check that nothing is left over. -/
def Decoder.whole {β ε α : Type} (d : Decoder β ε α) (leftover : ε) (data : List β) :
    Except ε α := do
  let (a, c) ← d (Cursor.new data)
  if c.remaining ≠ 0 then .error leftover else .ok a

/-- A whole-sequence decoder accepts exactly the encodings. -/
theorem Exact.whole_ok_iff {β ε α : Type} {d : Decoder β ε α} {E : α → List β → Prop}
    (h : Exact d E) (leftover : ε) (data : List β) (a : α) :
    d.whole leftover data = .ok a ↔ E a data := by
  unfold Decoder.whole
  rw [bind_ok]
  constructor
  · rintro ⟨⟨b, c⟩, hd, hc⟩
    obtain ⟨bs, he, hr⟩ := h.sound hd
    by_cases hz : c.remaining = 0
    · simp only [hz, ne_eq, not_true_eq_false, ↓reduceIte, Except.ok.injEq] at hc
      subst b
      rw [(Cursor.remaining_eq_zero_iff c).mp hz, List.append_nil, Cursor.rest_new] at hr
      rwa [hr]
    · simp [hz] at hc
  · intro he
    obtain ⟨c, hd, hr⟩ := h.complete he (.new data) [] (by simp)
    refine ⟨(a, c), hd, ?_⟩
    simp [(Cursor.remaining_eq_zero_iff c).mpr hr]

/-- A size in front of the last field must count that field exactly. -/
theorem Exact.whole_sized_ok_iff {β ε α κ : Type} {size : Decoder β ε κ} {d : Decoder β ε α}
    {S : κ → List β → Prop} {E : α → List β → Prop} (hs : Exact size S) (h : Exact d E)
    (count : κ → Nat) (mismatch leftover : ε) (data : List β) (a : α) :
    Decoder.whole (do
      let n ← size
      Decoder.expectRemaining (count n) mismatch
      d) leftover data = .ok a ↔
      ∃ n xs ys, S n xs ∧ E a ys ∧ count n = ys.length ∧ data = xs ++ ys := by
  -- The check depends on what is left unread, so the sized body is exact only as a whole.
  unfold Decoder.whole
  rw [bind_ok]
  constructor
  · rintro ⟨⟨b, c⟩, hd, hc⟩
    obtain ⟨⟨n, c₁⟩, hsz, hd⟩ := bind_ok.mp hd
    obtain ⟨⟨_, c₂⟩, hex, hd⟩ := bind_ok.mp hd
    unfold Decoder.expectRemaining at hex
    by_cases hn : count n = c₁.remaining
    · rw [if_neg (not_not.mpr hn)] at hex
      cases hex
      obtain ⟨xs, hx, hr⟩ := hs.sound hsz
      obtain ⟨ys, hy, hr₁⟩ := h.sound hd
      by_cases hz : c.remaining = 0
      · simp only [hz, ne_eq, not_true_eq_false, ↓reduceIte, Except.ok.injEq] at hc
        subst b
        rw [(Cursor.remaining_eq_zero_iff c).mp hz, List.append_nil] at hr₁
        rw [Cursor.rest_new, hr₁] at hr
        exact ⟨n, xs, ys, hx, hy, by rw [hn, ← Cursor.length_rest, hr₁], hr⟩
      · simp [hz] at hc
    · rw [if_pos hn] at hex
      cases hex
  · rintro ⟨n, xs, ys, hx, hy, hn, rfl⟩
    obtain ⟨c₁, hsz, hr₁⟩ := hs.complete hx (.new (xs ++ ys)) ys rfl
    obtain ⟨c₂, hd, hr₂⟩ := h.complete hy c₁ [] (by rw [hr₁, List.append_nil])
    refine ⟨(a, c₂), ?_, ?_⟩
    · refine bind_ok.mpr ⟨(n, c₁), hsz, ?_⟩
      have he : Decoder.expectRemaining (β := β) (count n) mismatch c₁ = .ok ((), c₁) := by
        rw [Decoder.expectRemaining, if_neg]
        rw [hn, ← Cursor.length_rest, hr₁]
        exact not_not.mpr rfl
      exact bind_ok.mpr ⟨((), c₁), he, hd⟩
    · simp [(Cursor.remaining_eq_zero_iff c₂).mpr hr₂]

end R9P.Base
