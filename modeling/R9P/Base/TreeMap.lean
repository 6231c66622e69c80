import Mathlib.Algebra.BigOperators.Group.Finset.Basic
import Mathlib.Algebra.GroupWithZero.Nat
import Mathlib.Data.Finset.Card
import Std.Data.ExtTreeMap

/-!
# The keys of a tree map as a finite set

Library `Base`. The size of a map is the number of its keys. Counting keys turns a
bound on sizes into a bound on a finite set, where inclusion decides.
-/

namespace R9P.Base
open Std
open ExtTreeMap (ext_getElem? getElem?_empty getElem?_erase getElem?_filter' getElem?_insert
  map_fst_toList_eq_keys mem_toList_iff_getElem?_eq_some)

variable {α β : Type} [Ord α] [TransOrd α] {f : α → Bool}

section Keys

variable [DecidableEq α]

/-- The keys of a map. -/
def keySet (m : ExtTreeMap α β) : Finset α := m.keys.toFinset

@[simp] theorem mem_keySet [LawfulEqOrd α] {m : ExtTreeMap α β} {a : α} : a ∈ keySet m ↔ a ∈ m := by
  rw [keySet, List.mem_toFinset, ExtTreeMap.mem_keys]

/-- A map has as many entries as keys. -/
theorem card_keySet (m : ExtTreeMap α β) : (keySet m).card = m.size := by
  have hd : m.keys.Nodup := m.nodup_keys
  rw [keySet, List.toFinset_card_of_nodup hd, ExtTreeMap.length_keys]

end Keys

section Lookup

variable [LawfulEqOrd α] {m : ExtTreeMap α β} {a k : α} {b : β}

/-- Lookup behind an insertion, decided by equality of keys. -/
theorem get_insert [DecidableEq α] :
    (m.insert a b)[k]? = if a = k then some b else m[k]? := by
  rw [getElem?_insert]
  by_cases h : a = k
  · simp [h]
  · simp [h]

/-- Lookup behind an erasure, decided by equality of keys. -/
theorem get_erase [DecidableEq α] : (m.erase a)[k]? = if a = k then none else m[k]? := by
  rw [getElem?_erase]
  by_cases h : a = k
  · simp [h]
  · simp [h]

omit [LawfulEqOrd α] in
/-- A key is present when it has a value. -/
theorem mem_iff_exists : k ∈ m ↔ ∃ b, m[k]? = some b := by
  rw [ExtTreeMap.mem_iff_isSome_getElem?, Option.isSome_iff_exists]

/-- Membership behind an insertion, decided by equality of keys. -/
theorem mem_insert_eq : k ∈ m.insert a b ↔ a = k ∨ k ∈ m := by
  rw [ExtTreeMap.mem_insert, LawfulEqOrd.compare_eq_iff_eq]

/-- Erasing an absent key changes nothing. -/
theorem erase_eq_self (h : m[a]? = none) : m.erase a = m := by
  apply ext_getElem?
  intro k
  rw [getElem?_erase]
  split
  · next hk => rw [← LawfulEqOrd.eq_of_compare hk, h]
  · rfl

/-- Erasing a key just inserted takes an absent key back out. -/
theorem erase_insert_self (h : m[a]? = none) : (m.insert a b).erase a = m := by
  apply ext_getElem?
  intro k
  rw [getElem?_erase, getElem?_insert]
  split
  · next hk => rw [← LawfulEqOrd.eq_of_compare hk, h]
  · rfl

/-- A map without entries has no keys. -/
theorem getElem?_of_size_zero [DecidableEq α] (h : m.size = 0) : m[k]? = none := by
  rw [← card_keySet, Finset.card_eq_zero] at h
  refine ExtTreeMap.getElem?_eq_none fun hk => ?_
  rw [← mem_keySet, h] at hk
  exact Finset.notMem_empty k hk

/-- Lookup in what is left of a map. -/
theorem getElem?_filter_keys :
    (m.filter fun k _ => f k)[k]? = if f k then m[k]? else none := by
  rw [getElem?_filter']
  cases m[k]? with
  | none => rw [Option.filter_none, ite_self]
  | some b => rw [Option.filter_some]

theorem filter_eq_self {f : α → β → Bool} (h : ∀ k b, f k b = true) : m.filter f = m := by
  apply ext_getElem?
  intro k
  rw [getElem?_filter']
  cases m[k]? with
  | none => rfl
  | some b => rw [Option.filter_some, if_pos (h k b)]

theorem filter_filter {f g : α → β → Bool} :
    (m.filter f).filter g = m.filter fun k b => f k b && g k b := by
  apply ext_getElem?
  intro k
  rw [getElem?_filter', getElem?_filter',
    getElem?_filter', Option.filter_filter]

end Lookup

section Entries

variable [LawfulEqOrd α] [BEq α] [LawfulBEq α] {m : ExtTreeMap α β}
  {entries : List (α × β)}

omit [BEq α] [LawfulBEq α] [LawfulEqOrd α] in
/-- Insert entries one behind the other. -/
def insertAll (m : ExtTreeMap α β) (entries : List (α × β)) : ExtTreeMap α β :=
  entries.foldl (fun m entry => m.insert entry.1 entry.2) m

/-- Lookup behind entries with different keys. -/
theorem getElem?_insertAll (h : (entries.map Prod.fst).Nodup) (k : α) :
    (insertAll m entries)[k]? = (entries.lookup k).or m[k]? := by
  induction entries generalizing m with
  | nil => rfl
  | cons entry entries ih =>
    obtain ⟨a, b⟩ := entry
    obtain ⟨hn, hr⟩ := List.nodup_cons.mp h
    show (insertAll (m.insert a b) entries)[k]? = _
    rw [ih hr, List.lookup_cons, getElem?_insert]
    by_cases hk : k = a
    · have hnn : entries.lookup k = none := by
        rw [List.lookup_eq_none_iff]
        intro other ho
        rw [bne_iff_ne]
        intro heq
        exact hn (List.mem_map.mpr ⟨other, ho, heq.symm.trans hk⟩)
      rw [hnn, hk]
      simp
    · have hne : compare a k ≠ .eq := fun heq => hk (LawfulEqOrd.eq_of_compare heq).symm
      rw [if_neg hne, beq_eq_false_iff_ne.mpr hk]

theorem lookup_eq_some_of_mem {k : α} {b : β} (h : (entries.map Prod.fst).Nodup)
    (hm : (k, b) ∈ entries) : entries.lookup k = some b := by
  induction entries with
  | nil => cases hm
  | cons entry entries ih =>
    obtain ⟨a, c⟩ := entry
    obtain ⟨hn, hr⟩ := List.nodup_cons.mp h
    rw [List.lookup_cons]
    rcases List.mem_cons.mp hm with heq | ht
    · cases heq
      rw [beq_self_eq_true]
    · have hne : k ≠ a := by
        rintro rfl
        exact hn (List.mem_map.mpr ⟨_, ht, rfl⟩)
      rw [beq_eq_false_iff_ne.mpr hne]
      exact ih hr ht

omit [BEq α] [LawfulBEq α] [LawfulEqOrd α] in
theorem nodup_toList : (m.toList.map Prod.fst).Nodup := by
  rw [map_fst_toList_eq_keys]
  exact m.nodup_keys

/-- A map is read back from its entries, in any order. -/
theorem insertAll_perm (h : entries.Perm m.toList) : insertAll ∅ entries = m := by
  have hn : (entries.map Prod.fst).Nodup := (h.map Prod.fst).nodup_iff.mpr nodup_toList
  apply ext_getElem?
  intro k
  rw [getElem?_insertAll hn, getElem?_empty, Option.or_none]
  cases hk : m[k]? with
  | some b =>
    apply lookup_eq_some_of_mem hn
    rw [h.mem_iff]
    exact mem_toList_iff_getElem?_eq_some.mpr hk
  | none =>
    rw [List.lookup_eq_none_iff]
    intro entry he
    rw [bne_iff_ne]
    rintro rfl
    rw [h.mem_iff] at he
    cases hk.symm.trans (mem_toList_iff_getElem?_eq_some.mp he)

end Entries

section Sums

variable [LawfulEqOrd α] [DecidableEq α] {m m' : ExtTreeMap α β} {a : α} {f : β → Nat}

/-- What the entries of a map come to together. -/
def sumEntries (f : β → Nat) (m : ExtTreeMap α β) : Nat :=
  ∑ k ∈ keySet m, (m[k]?).elim 0 f

/-- A change of one entry. -/
theorem sumEntries_change (h : ∀ k, k ≠ a → m'[k]? = m[k]?) :
    sumEntries f m' + (m[a]?).elim 0 f = sumEntries f m + (m'[a]?).elim 0 f := by
  have hs : ∀ m : ExtTreeMap α β, sumEntries f m =
      (∑ k ∈ (keySet m).erase a, (m[k]?).elim 0 f) + (m[a]?).elim 0 f := by
    intro m
    unfold sumEntries
    by_cases ha : a ∈ keySet m
    · rw [← Finset.add_sum_erase _ _ ha, Nat.add_comm]
    · rw [Finset.erase_eq_of_notMem ha]
      rw [mem_keySet, ExtTreeMap.mem_iff_isSome_getElem?, Bool.not_eq_true,
        Option.isSome_eq_false_iff, Option.isNone_iff_eq_none] at ha
      rw [ha]
      rfl
  have hky : (keySet m').erase a = (keySet m).erase a := by
    ext k
    rw [Finset.mem_erase, Finset.mem_erase, mem_keySet, mem_keySet]
    refine and_congr_right fun hk => ?_
    rw [mem_iff_exists, mem_iff_exists, h k hk]
  have hr : ∑ k ∈ (keySet m').erase a, (m'[k]?).elim 0 f =
      ∑ k ∈ (keySet m).erase a, (m[k]?).elim 0 f := by
    rw [hky]
    refine Finset.sum_congr rfl fun k hk => ?_
    rw [h k (Finset.mem_erase.mp hk).1]
  rw [hs m, hs m', hr]
  omega

/-- The sum may be taken over the list of the entries. -/
theorem sumEntries_eq_sum : sumEntries f m = (m.toList.map fun entry => f entry.2).sum := by
  have hn : (m.toList.map Prod.fst).Nodup := by
    rw [map_fst_toList_eq_keys]
    exact m.nodup_keys
  rw [sumEntries, keySet, ← map_fst_toList_eq_keys, List.sum_toFinset _ hn, List.map_map]
  refine congrArg List.sum (List.map_congr_left fun entry he => ?_)
  show (m[entry.1]?).elim 0 f = _
  rw [mem_toList_iff_getElem?_eq_some.mp he]
  rfl

end Sums

section Sets

variable [LawfulEqOrd α] {m : ExtTreeSet α} {a k : α}

/-- Membership behind an insertion, decided by equality. -/
theorem mem_set_insert_eq : k ∈ m.insert a ↔ a = k ∨ k ∈ m := by
  rw [ExtTreeSet.mem_insert, LawfulEqOrd.compare_eq_iff_eq]

/-- Membership behind an erasure, decided by equality. -/
theorem mem_set_erase_eq : k ∈ m.erase a ↔ a ≠ k ∧ k ∈ m := by
  rw [ExtTreeSet.mem_erase, Ne, LawfulEqOrd.compare_eq_iff_eq]

/-- Membership in what is left of a set. -/
theorem mem_set_filter : k ∈ m.filter f ↔ k ∈ m ∧ f k = true := by
  rw [ExtTreeSet.mem_filter]
  constructor
  · rintro ⟨hm, hf⟩
    rw [ExtTreeSet.get_eq] at hf
    exact ⟨hm, hf⟩
  · rintro ⟨hm, hf⟩
    refine ⟨hm, ?_⟩
    rw [ExtTreeSet.get_eq]
    exact hf

theorem set_filter_eq_self (h : ∀ k, f k = true) : m.filter f = m := by
  apply ExtTreeSet.ext_mem
  intro k
  rw [mem_set_filter]
  exact and_iff_left (h k)

theorem set_filter_filter {f g : α → Bool} :
    (m.filter f).filter g = m.filter fun k => f k && g k := by
  apply ExtTreeSet.ext_mem
  intro k
  rw [mem_set_filter, mem_set_filter, mem_set_filter, Bool.and_eq_true, and_assoc]

/-- The elements of a set are listed once. -/
theorem nodup_set_toList : m.toList.Nodup := by
  refine m.distinct_toList.imp fun h heq => h ?_
  rw [heq]
  exact ReflCmp.compare_self

end Sets

end R9P.Base
