import R9P.Server.Session

/-!
# What reservations guarantee

Library `Server`. A request in flight lays a `Claim` to each fid it depends on, which the
session keeps as a reservation. `Session.WF` is what every session guarantees about its
reservations. Releasing a request takes away its claims and no other's, and a fid is
counted once, whether it is bound or promised.
-/

namespace R9P.Server
open Std Base Wire

/-- How a request in flight depends on a fid: it will bind it, holds it alone, shares it
with others, or has unbound it. -/
inductive Claim where
  | fresh
  | held
  | shared
  | retired
  deriving DecidableEq, Repr

variable {r : FidReservations} {key other : RequestKey}

namespace FidReservations

/-- A request is named by a reservation. -/
def Names (self : FidReservations) (key : RequestKey) : Prop :=
  (∃ newFid, self.exclusive = some ⟨key, newFid⟩) ∨ key ∈ self.shared

theorem isEmpty_iff : r.isEmpty = true ↔ r = .default := by
  cases r with
  | mk exclusive shared =>
    cases exclusive <;> simp [isEmpty, default]

theorem isNewFid_iff : r.isNewFid = true ↔ ∃ key, r.exclusive = some ⟨key, true⟩ := by
  cases r with
  | mk exclusive shared =>
    cases exclusive with
    | none => simp [isNewFid]
    | some reservation =>
      cases reservation
      simp [isNewFid]

/-- A release takes away the sole hold of the request released and of no other. -/
@[simp] theorem release_exclusive_eq_some {key : RequestKey} {x : FidReservation} :
    (r.release key).exclusive = some x ↔ r.exclusive = some x ∧ x.request ≠ key := by
  cases r with
  | mk exclusive shared =>
    cases exclusive with
    | none => simp [release]
    | some y =>
      by_cases hy : y.request = key
      · simp only [release, Option.any_some, hy, decide_true, if_true, reduceCtorEq, false_iff]
        rintro ⟨hxy, hx⟩
        rw [← Option.some.inj hxy] at hx
        exact hx hy
      · simp only [release, Option.any_some, hy, decide_false, Bool.false_eq_true, if_false]
        constructor
        · intro hxy
          exact ⟨hxy, by rwa [← Option.some.inj hxy]⟩
        · exact And.left

/-- A release takes the request out of those sharing the fid. -/
@[simp] theorem mem_release_shared :
    other ∈ (r.release key).shared ↔ other ≠ key ∧ other ∈ r.shared := Finset.mem_erase

/-- A request is named after a release exactly when it was named and is another one. -/
theorem names_release :
    (r.release key).Names other ↔ r.Names other ∧ other ≠ key := by
  simp only [Names, release_exclusive_eq_some, mem_release_shared]
  constructor
  · rintro (⟨newFid, h, hne⟩ | ⟨hne, h⟩)
    · exact ⟨.inl ⟨newFid, h⟩, hne⟩
    · exact ⟨.inr h, hne⟩
  · rintro ⟨⟨newFid, h⟩ | h, hne⟩
    · exact .inl ⟨newFid, h, hne⟩
    · exact .inr ⟨hne, h⟩

/-- A release changes nothing for a fid that the request has no part in. -/
theorem release_eq_self {key : RequestKey} (h : ¬ r.Names key) : r.release key = r := by
  cases r with
  | mk exclusive shared =>
    have hs : shared.erase key = shared := Finset.erase_eq_of_notMem fun hk => h (.inr hk)
    cases exclusive with
    | none => simp [release, hs]
    | some y =>
      have hy : y.request ≠ key := fun hy => h (.inl ⟨y.newFid, by rw [← hy]⟩)
      simp [release, hs, hy]

end FidReservations

namespace Session

/-- Replace the reservations of one fid. -/
def setEntry (self : Session) (fid : Fid) (r : FidReservations) : Session :=
  { self with reservations := self.reservations.insert fid r }

theorem entry_setEntry (s : Session) (f g : Fid) (r : FidReservations) :
    (s.setEntry f r).entry g = if f = g then r else s.entry g := by
  unfold entry setEntry
  rw [get_insert]
  split
  · rfl
  · rfl

@[simp] theorem entry_setEntry_self (s : Session) (f : Fid) (r : FidReservations) :
    (s.setEntry f r).entry f = r := by
  rw [entry_setEntry, if_pos rfl]

/-- Releasing acts on the reservations of each fid alone. -/
@[simp] theorem entry_releaseReservations (s : Session) (key : RequestKey) (f : Fid) :
    (s.releaseReservations key).entry f = (s.entry f).release key := by
  unfold entry releaseReservations
  rw [ExtTreeMap.getElem?_filter', ExtTreeMap.getElem?_map]
  cases s.reservations[f]? with
  | none => rfl
  | some r =>
    by_cases he : (r.release key).isEmpty = true
    · simp only [Option.map_some, Option.filter, he, Bool.not_true, Bool.false_eq_true, if_false]
      exact (FidReservations.isEmpty_iff.mp he).symm
    · simp [Option.filter, he]

/-- The reservations of a fid are those found, or none. -/
theorem entry_eq_of_getElem? {s : Session} {f : Fid}
    (h : s.reservations[f]? = some r) : s.entry f = r := by
  rw [entry, h]
  rfl

/-- A request holds a claim on a fid. -/
def Holds (self : Session) (key : RequestKey) (fid : Fid) : Claim → Prop
  | .fresh => (self.entry fid).exclusive = some ⟨key, true⟩
  | .held => (self.entry fid).exclusive = some ⟨key, false⟩ ∧ fid ∈ self.fids
  | .retired => (self.entry fid).exclusive = some ⟨key, false⟩ ∧ fid ∉ self.fids
  | .shared => key ∈ (self.entry fid).shared

/-- Replace the request table. -/
def withRequests (s : Session) (requests : RequestTable) : Session :=
  { s with requests := requests }

/-- The request still holds its tag. -/
def IsLive (s : Session) (key : RequestKey) : Prop := s.requests.live[key.tag]? = some key

/-- A live request gives up its tag and its reservations. -/
def finished (s : Session) (key : RequestKey) : Session :=
  (s.withRequests
    { s.requests with live := s.requests.live.erase key.tag }).releaseReservations key

/-- What every session keeps: no reservation is empty or of both kinds, a promised fid is
not bound and a shared one is, only live requests reserve, a request is filed under its
tag, and a session without a negotiated version has nothing to reserve. -/
structure WF (s : Session) : Prop where
  nonempty : ∀ (f : Fid) (r : FidReservations), s.reservations[f]? = some r → r ≠ .default
  apart : ∀ f, (s.entry f).exclusive = none ∨ (s.entry f).shared = ∅
  fresh_unbound : ∀ f key, (s.entry f).exclusive = some ⟨key, true⟩ → f ∉ s.fids
  shared_bound : ∀ f, (s.entry f).shared ≠ ∅ → f ∈ s.fids
  named_live : ∀ f key, (s.entry f).Names key → s.IsLive key
  filed : ∀ (tag : Tag) (key : RequestKey), s.requests.live[tag]? = some key → key.tag = tag
  idle : s.negotiated = false →
    s.fids = ∅ ∧ s.reservations = ∅ ∧ s.requests.live = ∅

variable {s s' : Session} {key other : RequestKey} {f g : Fid} {c d : Claim}

/-! ### Releasing -/

/-- In a well-formed session a fid without reservations has no entry. -/
theorem WF.getElem?_eq_none (h : s.WF) (he : s.entry f = .default) : s.reservations[f]? = none := by
  cases hr : s.reservations[f]? with
  | none => rfl
  | some r => exact absurd ((entry_eq_of_getElem? hr).symm.trans he) (h.nonempty f r hr)

/-- What is left of a fid's reservations after a release, if anything is. -/
theorem getElem?_releaseReservations (s : Session) (key : RequestKey) (f : Fid) :
    (s.releaseReservations key).reservations[f]? =
      if (s.entry f).release key = .default then none else some ((s.entry f).release key) := by
  unfold releaseReservations entry
  rw [ExtTreeMap.getElem?_filter', ExtTreeMap.getElem?_map]
  cases s.reservations[f]? with
  | none => rfl
  | some r =>
    by_cases he : r.release key = .default
    · simp [Option.filter, he, FidReservations.isEmpty_iff.mpr rfl]
    · have hne : (r.release key).isEmpty = false := by
        rw [Bool.eq_false_iff]
        intro ht
        exact he (FidReservations.isEmpty_iff.mp ht)
      simp [Option.filter, he, hne]

/-- A release depends only on what it leaves of each fid's reservations. -/
theorem releaseReservations_congr (hf : s' = { s with reservations := s'.reservations })
    (he : ∀ f, (s'.entry f).release key = (s.entry f).release key) :
    s'.releaseReservations key = s.releaseReservations key := by
  have hm : (s'.releaseReservations key).reservations =
      (s.releaseReservations key).reservations := by
    apply ExtTreeMap.ext_getElem?
    intro f
    rw [getElem?_releaseReservations, getElem?_releaseReservations, he f]
  change { s' with reservations := (s'.releaseReservations key).reservations } =
    { s with reservations := (s.releaseReservations key).reservations }
  rw [hm, hf]

/-- Releasing a request that reserves nothing changes nothing. -/
theorem WF.releaseReservations_eq_self (h : s.WF) (hk : ∀ f, ¬ (s.entry f).Names key) :
    s.releaseReservations key = s := by
  have hm : (s.releaseReservations key).reservations = s.reservations := by
    apply ExtTreeMap.ext_getElem?
    intro f
    rw [getElem?_releaseReservations, FidReservations.release_eq_self (hk f)]
    split
    · next he => exact (h.getElem?_eq_none he).symm
    · next he =>
      cases hr : s.reservations[f]? with
      | none => exact absurd (by rw [entry, hr]; rfl) he
      | some r => rw [entry_eq_of_getElem? hr]
  change { s with reservations := (s.releaseReservations key).reservations } = s
  rw [hm]

/-- Finishing a request drops no other from the table. -/
theorem isLive_finished : (s.finished key).IsLive other ↔ key.tag ≠ other.tag ∧ s.IsLive other := by
  change (s.requests.live.erase key.tag)[other.tag]? = some other ↔ _
  rw [get_erase]
  by_cases ht : key.tag = other.tag
  · simp [ht]
  · simp [ht, IsLive]

@[simp] theorem entry_finished (s : Session) (key : RequestKey) (f : Fid) :
    (s.finished key).entry f = (s.entry f).release key := by
  rw [finished, entry_releaseReservations]
  rfl

/-- Finishing a live request keeps a session well formed. -/
theorem WF.finished (h : s.WF) (hl : s.IsLive key) : (s.finished key).WF := by
  have hrq : (s.finished key).requests.live = s.requests.live.erase key.tag := rfl
  constructor
  · intro f r hr
    rw [Session.finished, getElem?_releaseReservations] at hr
    split at hr
    · cases hr
    · next hne =>
      rw [← Option.some.inj hr]
      exact hne
  · intro f
    rw [entry_finished]
    rcases h.apart f with he | hs
    · left
      rw [Option.eq_none_iff_forall_ne_some]
      intro x hx
      rw [FidReservations.release_exclusive_eq_some] at hx
      exact absurd (he.symm.trans hx.1) (by simp)
    · right
      rw [Finset.eq_empty_iff_forall_notMem]
      intro k hk
      rw [FidReservations.mem_release_shared, hs] at hk
      exact absurd hk.2 (Finset.notMem_empty k)
  · intro f k hf
    rw [entry_finished, FidReservations.release_exclusive_eq_some] at hf
    exact h.fresh_unbound f k hf.1
  · intro f hf
    rw [entry_finished] at hf
    obtain ⟨k, hk⟩ := Finset.nonempty_of_ne_empty hf
    rw [FidReservations.mem_release_shared] at hk
    exact h.shared_bound f (Finset.ne_empty_of_mem hk.2)
  · intro f k hk
    rw [entry_finished, FidReservations.names_release] at hk
    have hk' := h.named_live f k hk.1
    refine isLive_finished.mpr ⟨fun ht => hk.2 ?_, hk'⟩
    -- Two live requests of one tag are one request.
    rw [IsLive, ← ht, hl] at hk'
    exact (Option.some.inj hk').symm
  · intro tag k hk
    rw [hrq, get_erase] at hk
    split at hk
    · cases hk
    · exact h.filed tag k hk
  · intro hn
    obtain ⟨-, -, hem⟩ := h.idle hn
    rw [IsLive, hem] at hl
    cases hl

/-- A release takes away no claim of another request. -/
theorem holds_releaseReservations (h : s.Holds other g d) (hne : other ≠ key) :
    (s.releaseReservations key).Holds other g d := by
  cases d with
  | fresh =>
    simp only [Holds, entry_releaseReservations, FidReservations.release_exclusive_eq_some]
    exact ⟨h, hne⟩
  | held | retired =>
    simp only [Holds, entry_releaseReservations, FidReservations.release_exclusive_eq_some]
    exact ⟨⟨h.1, hne⟩, h.2⟩
  | shared =>
    simp only [Holds, entry_releaseReservations, FidReservations.mem_release_shared]
    exact ⟨hne, h⟩

/-- Claims are read off a fid's reservations and its being bound. -/
theorem holds_congr (he : s'.entry g = s.entry g) (hf : g ∈ s'.fids ↔ g ∈ s.fids) :
    s'.Holds other g d ↔ s.Holds other g d := by
  cases d with
  | fresh => simp only [Holds, he]
  | held => simp only [Holds, he, hf]
  | shared => simp only [Holds, he]
  | retired => simp only [Holds, he, hf]

/-- Nobody claims a fid without reservations. -/
theorem not_holds_of_entry_default (h : s.entry g = .default) : ¬ s.Holds other g d := by
  cases d with
  | fresh | held | shared | retired => simp [Holds, h, FidReservations.default]

/-! ### Counting fids -/

/-- The fids bound or promised. -/
def occupied (s : Session) : Finset Fid :=
  keySet s.fids ∪ keySet (s.reservations.filter fun _ reservations => reservations.isNewFid)

private theorem mem_filter_isNewFid :
    f ∈ s.reservations.filter (fun _ reservations => reservations.isNewFid) ↔
      (s.entry f).isNewFid = true := by
  rw [mem_iff_exists, entry]
  simp only [ExtTreeMap.getElem?_filter']
  cases s.reservations[f]? with
  | none => simp [FidReservations.isNewFid, FidReservations.default]
  | some r => simp [Option.filter]

@[simp] theorem mem_occupied :
    f ∈ s.occupied ↔ f ∈ s.fids ∨ ∃ key, (s.entry f).exclusive = some ⟨key, true⟩ := by
  rw [occupied, Finset.mem_union, mem_keySet, mem_keySet, mem_filter_isNewFid,
    FidReservations.isNewFid_iff]

/-- A promised fid is not bound, so no fid is counted twice. -/
theorem WF.card_occupied (h : s.WF) : s.occupied.card = s.fidCount := by
  rw [occupied, Finset.card_union_of_disjoint, card_keySet, card_keySet, fidCount]
  rw [Finset.disjoint_left]
  intro f hf hn
  rw [mem_keySet] at hf
  rw [mem_keySet, mem_filter_isNewFid, FidReservations.isNewFid_iff] at hn
  obtain ⟨k, hk⟩ := hn
  exact h.fresh_unbound f k hk hf

end Session

end R9P.Server
