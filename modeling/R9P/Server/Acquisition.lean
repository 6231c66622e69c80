import R9P.Server.Reservations

/-!
# Reserving fids

Library `Server`. The operations of `session.rs` that reserve fids either fail and leave the
session as it was, or take exactly one step of `Acquire`. Every step keeps the session well
formed and disturbs no claim of another request; releasing a request undoes its steps.
-/

namespace R9P.Server
open Std Base Base.Checked Wire

namespace Session

variable {s s' : Session} {key other : RequestKey} {f g : Fid} {c d : Claim}

/-- One successful reservation of a request. -/
inductive Acquire (key : RequestKey) : Session → Fid → Claim → Session → Prop
  | fresh {s : Session} {f : Fid} (unbound : f ∉ s.fids) (free : s.entry f = .default)
      (room : s.fidCount < s.config.maxFids) :
      Acquire key s f .fresh (s.setEntry f ⟨some ⟨key, true⟩, ∅⟩)
  | held {s : Session} {f : Fid} (bound : f ∈ s.fids) (free : s.entry f = .default) :
      Acquire key s f .held (s.setEntry f ⟨some ⟨key, false⟩, ∅⟩)
  | shared {s : Session} {f : Fid} (bound : f ∈ s.fids) (free : (s.entry f).exclusive = none) :
      Acquire key s f .shared (s.setEntry f ⟨none, insert key (s.entry f).shared⟩)
  | retired {s : Session} {f : Fid} (bound : f ∈ s.fids) (free : s.entry f = .default) :
      Acquire key s f .retired
        ({ s with fids := s.fids.erase f }.setEntry f ⟨some ⟨key, false⟩, ∅⟩)

namespace Acquire

section

variable (h : Acquire key s f c s')
include h

/-- Only the fid table and the reservations change. -/
theorem frame : s' = { s with fids := s'.fids, reservations := s'.reservations } := by
  cases h <;> rfl

/-- Only a retirement unbinds, and only its fid. -/
theorem fids_eq : s'.fids = if c = .retired then s.fids.erase f else s.fids := by
  cases h <;> rfl

/-- The reservations of other fids stay. -/
theorem entry_ne (hg : g ≠ f) : s'.entry g = s.entry g := by
  cases h <;> exact (entry_setEntry _ _ _ _).trans (if_neg (Ne.symm hg))

/-- Other fids stay bound or unbound. -/
theorem mem_fids_ne (hg : g ≠ f) : g ∈ s'.fids ↔ g ∈ s.fids := by
  rw [h.fids_eq]
  split
  · simp [Ne.symm hg]
  · rfl

/-- The request holds what it acquired. -/
theorem holds : s'.Holds key f c := by
  cases h with
  | fresh unbound free room => simp [Holds]
  | held bound free => exact ⟨by simp, bound⟩
  | shared bound free => simp [Holds]
  | retired bound free => exact ⟨by simp, by simp [setEntry]⟩

/-- No claim is lost: a fid is taken over only when nobody claims it. -/
theorem keeps (hd : s.Holds other g d) : s'.Holds other g d := by
  by_cases hg : g = f
  · subst hg
    cases h with
    | fresh unbound free room | held bound free | retired bound free =>
      exact absurd hd (not_holds_of_entry_default free)
    | shared bound free =>
      cases d with
      | fresh => exact absurd (free.symm.trans hd) (by simp)
      | held | retired => exact absurd (free.symm.trans hd.1) (by simp)
      | shared =>
        simp only [Holds, entry_setEntry_self]
        exact Finset.mem_insert_of_mem hd
  · exact (holds_congr (h.entry_ne hg) (h.mem_fids_ne hg)).mpr hd

/-- Well-formedness of the step is decided at the fid it concerns. -/
private theorem wf_of_entry (hs : s.WF) (hn : s.negotiated = true) (hne : s'.entry f ≠ .default)
    (ha : (s'.entry f).exclusive = none ∨ (s'.entry f).shared = ∅)
    (hf : ∀ k, (s'.entry f).exclusive = some ⟨k, true⟩ → f ∉ s'.fids)
    (hsh : (s'.entry f).shared ≠ ∅ → f ∈ s'.fids)
    (hnm : ∀ k, (s'.entry f).Names k → s.IsLive k) : s'.WF := by
  have hrq : s'.requests = s.requests := by rw [h.frame]
  constructor
  · intro g r hr
    by_cases hg : g = f
    · rw [hg] at hr
      rwa [entry_eq_of_getElem? hr] at hne
    · apply hs.nonempty g r
      rw [← hr]
      cases h <;> exact (get_insert.trans (if_neg (Ne.symm hg))).symm
  · intro g
    by_cases hg : g = f
    · rwa [hg]
    · rw [h.entry_ne hg]
      exact hs.apart g
  · intro g k hk
    by_cases hg : g = f
    · rw [hg] at hk ⊢
      exact hf k hk
    · rw [h.entry_ne hg] at hk
      rw [h.mem_fids_ne hg]
      exact hs.fresh_unbound g k hk
  · intro g hk
    by_cases hg : g = f
    · rw [hg] at hk ⊢
      exact hsh hk
    · rw [h.entry_ne hg] at hk
      rw [h.mem_fids_ne hg]
      exact hs.shared_bound g hk
  · intro g k hk
    rw [IsLive, hrq]
    by_cases hg : g = f
    · exact hnm k (hg ▸ hk)
    · rw [h.entry_ne hg] at hk
      exact hs.named_live g k hk
  · rw [hrq]
    exact hs.filed
  · intro hn'
    rw [h.frame] at hn'
    exact absurd (hn.symm.trans hn') (by simp)

/-- A live request of a negotiated session may acquire. -/
theorem wf (hs : s.WF) (hn : s.negotiated = true) (hl : s.IsLive key) : s'.WF := by
  -- A sole hold names the request alone and leaves nothing shared.
  have hsl (newFid : Bool) (k : RequestKey)
      (hk : (⟨some ⟨key, newFid⟩, ∅⟩ : FidReservations).Names k) :
      s.IsLive k := by
    rcases hk with ⟨b, hb⟩ | hk
    · have hky : key = k := congrArg FidReservation.request (Option.some.inj hb)
      rw [← hky]
      exact hl
    · exact absurd hk (by simp)
  cases h with
  | fresh unbound free room =>
    apply wf_of_entry (.fresh unbound free room) hs hn
    · simp [FidReservations.default]
    · simp
    · intro k hk
      exact unbound
    · simp
    · rw [entry_setEntry_self]
      exact hsl true
  | held bound free =>
    apply wf_of_entry (.held bound free) hs hn
    · simp [FidReservations.default]
    · simp
    · simp
    · simp
    · rw [entry_setEntry_self]
      exact hsl false
  | shared bound free =>
    apply wf_of_entry (.shared bound free) hs hn
    · simp [FidReservations.default]
    · simp
    · simp
    · intro _
      exact bound
    · intro k hk
      rw [entry_setEntry_self] at hk
      rcases hk with ⟨b, hb⟩ | hk
      · cases hb
      · rcases Finset.mem_insert.mp hk with hk | hk
        · rw [hk]
          exact hl
        · exact hs.named_live _ k (.inr hk)
  | retired bound free =>
    apply wf_of_entry (.retired bound free) hs hn
    · simp [FidReservations.default]
    · simp
    · simp
    · simp
    · rw [entry_setEntry_self]
      exact hsl false

/-- A promise is made for an unbound fid while there is room; every other step concerns a
fid that is bound. -/
theorem room_or_bound : s.fidCount < s.config.maxFids ∨ f ∈ s.fids := by
  cases h with
  | fresh unbound free room => exact .inl room
  | held bound free | shared bound free | retired bound free => exact .inr bound

/-- The fid count stays within its limit. -/
theorem count_le (hs : s.WF) (hs' : s'.WF)
    (hc : s.fidCount ≤ s.config.maxFids) : s'.fidCount ≤ s'.config.maxFids := by
  have hcn : s'.config = s.config := by rw [h.frame]
  have hsb : s'.occupied ⊆ insert f s.occupied := by
    intro g hg
    by_cases hgf : g = f
    · rw [hgf]
      exact Finset.mem_insert_self f _
    · apply Finset.mem_insert_of_mem
      rwa [mem_occupied, h.entry_ne hgf, h.mem_fids_ne hgf, ← mem_occupied] at hg
  have hcr := Finset.card_le_card hsb
  rw [hcn, ← hs'.card_occupied]
  rw [← hs.card_occupied] at hc
  rcases h.room_or_bound with hr | hb
  · have hi := Finset.card_insert_le f s.occupied
    rw [← hs.card_occupied] at hr
    omega
  · rw [Finset.insert_eq_of_mem (mem_occupied.mpr (.inl hb))] at hcr
    omega

/-- Releasing the request undoes what it acquired, unless it unbound a fid. -/
theorem release_eq (hc : c ≠ .retired) :
    s'.releaseReservations key = s.releaseReservations key := by
  have hfr : s' = { s with reservations := s'.reservations } := by
    have hf := h.fids_eq
    rw [if_neg hc] at hf
    rw [← hf]
    exact h.frame
  apply releaseReservations_congr hfr
  intro g
  by_cases hg : g = f
  · subst hg
    cases h with
    | fresh unbound free room | held bound free =>
      simp [free, FidReservations.release, FidReservations.default]
    | shared bound free => simp [free, FidReservations.release]
    | retired bound free => exact absurd rfl hc
  · rw [h.entry_ne hg]

end

end Acquire

/-- The reservations of one request, one after the other. -/
inductive Acquires (key : RequestKey) : Session → List (Fid × Claim) → Session → Prop
  | nil {s : Session} : Acquires key s [] s
  | cons {s s' s'' : Session} {f : Fid} {c : Claim} {claims : List (Fid × Claim)}
      (first : Acquire key s f c s') (rest : Acquires key s' claims s'') :
      Acquires key s ((f, c) :: claims) s''

namespace Acquires

variable {claims : List (Fid × Claim)}

/-- A single reservation. -/
theorem single (h : Acquire key s f c s') : Acquires key s [(f, c)] s' := .cons h .nil

section

variable (h : Acquires key s claims s')
include h

theorem frame : s' = { s with fids := s'.fids, reservations := s'.reservations } := by
  induction h with
  | nil => rfl
  | cons first rest ih =>
    rw [ih, first.frame]

section
variable (hs : s.WF) (hn : s.negotiated = true) (hl : s.IsLive key)
include hs hn hl

/-- The session stays well formed and within its limit. -/
theorem wf : s'.WF := by
  induction h with
  | nil => exact hs
  | cons first rest ih =>
    apply ih (first.wf hs hn hl)
    · rw [first.frame]
      exact hn
    · rw [first.frame]
      exact hl

theorem count_le (hc : s.fidCount ≤ s.config.maxFids) : s'.fidCount ≤ s'.config.maxFids := by
  induction h with
  | nil => exact hc
  | cons first rest ih =>
    have hs' := first.wf hs hn hl
    apply ih hs'
    · rw [first.frame]
      exact hn
    · rw [first.frame]
      exact hl
    · exact first.count_le hs hs' hc

end

theorem keeps (hd : s.Holds other g d) : s'.Holds other g d := by
  induction h with
  | nil => exact hd
  | cons first rest ih => exact ih (first.keeps hd)

/-- The request ends up with all of its claims. -/
theorem holds (hm : (g, d) ∈ claims) : s'.Holds key g d := by
  induction h with
  | nil => cases hm
  | cons first rest ih =>
    rcases List.mem_cons.mp hm with heq | hm
    · cases heq
      exact rest.keeps first.holds
    · exact ih hm

/-- A request that gives up leaves the session as it found it. -/
theorem release_eq (hc : ∀ p ∈ claims, p.2 ≠ .retired) :
    s'.releaseReservations key = s.releaseReservations key := by
  induction h with
  | nil => rfl
  | cons first rest ih =>
    rw [ih fun p hp => hc p (List.mem_cons_of_mem _ hp), first.release_eq (hc _ List.mem_cons_self)]

/-- Without a retirement every fid stays as it is. -/
theorem fids_eq (hc : ∀ p ∈ claims, p.2 ≠ .retired) : s'.fids = s.fids := by
  induction h with
  | nil => rfl
  | cons first rest ih =>
    rw [ih fun p hp => hc p (List.mem_cons_of_mem _ hp), first.fids_eq,
      if_neg (hc _ List.mem_cons_self)]

end

end Acquires

/-! ### The operations of `session.rs` as reservations -/

theorem okOr_ok_iff {α : Type} {o : Option α} {e : String} {a : α} :
    okOr o e = .ok a ↔ o = some a := by
  cases o with
  | none | some b => simp [okOr]

/-- `fid` of `session.rs:174` finds a bound fid that nobody holds alone. -/
theorem fid_ok_iff {st : FidState} :
    s.fid f = .ok st ↔ (s.entry f).exclusive = none ∧ s.fids[f]? = some st := by
  unfold fid ensureAvailable entry
  rw [check_ok, guard_ok, okOr_ok_iff]
  cases s.reservations[f]? with
  | none => simp [FidReservations.default]
  | some r => simp

theorem ensureUnreserved_ok_iff {u : Unit} :
    s.ensureUnreserved f = .ok u ↔ s.entry f = .default := by
  unfold ensureUnreserved entry
  cases s.reservations[f]? with
  | none => simp
  | some r => simp [FidReservations.isEmpty_iff]

/-- Making the entry present does not change what it says. -/
theorem entry_entryOrDefault : (s.entryOrDefault f).entry g = s.entry g := by
  unfold entryOrDefault
  cases hr : s.reservations[f]? with
  | some r => rfl
  | none =>
    change (s.setEntry f .default).entry g = s.entry g
    rw [entry_setEntry]
    split
    · next hfg => rw [← hfg, entry, hr]; rfl
    · rfl

-- An entry written after `entry().or_default()` replaces whatever was there.
private theorem setEntry_entryOrDefault {r : FidReservations} :
    (s.entryOrDefault f).setEntry f r = s.setEntry f r := by
  unfold entryOrDefault
  cases hr : s.reservations[f]? with
  | some r => rfl
  | none =>
    unfold setEntry
    congr 1
    apply ExtTreeMap.ext_getElem?
    intro g
    simp only [get_insert]
    split
    · rfl
    · rfl

-- The entry is left behind by a failure only if it was there before.
private theorem entryOrDefault_eq_self (h : s.entry f ≠ .default) : s.entryOrDefault f = s := by
  unfold entryOrDefault
  cases hr : s.reservations[f]? with
  | some r => rfl
  | none => exact absurd (by rw [entry, hr]; rfl) h

section Operations

variable {Q : Result Unit → Session → Prop}

section
variable (her : ∀ e, Q (.error e) s)
include her

/-- `reserve_new_fid` fails without effect or promises the fid. -/
theorem wp_reserveNewFid (hok : ∀ s', Acquire key s f .fresh s' → Q (.ok ()) s') :
    (reserveNewFid key f).wp Q s := by
  refine wp_ask_bind (fun e _ => her e) fun _ hf => ?_
  refine wp_ask_bind (fun e _ => her e) fun _ hr => ?_
  rw [guard_ok] at hf hr
  simp only [containsFid, Bool.or_eq_true, not_or, ExtTreeMap.contains_iff_mem] at hf
  refine hok _ (.fresh hf.1.1 ?_ (Nat.lt_of_not_le hr))
  rw [entry, ExtTreeMap.getElem?_eq_none hf.2]
  rfl

/-- `reserve_existing_fid` fails without effect or holds the fid alone. -/
theorem wp_reserveExistingFid (hok : ∀ s', Acquire key s f .held s' → Q (.ok ()) s') :
    (reserveExistingFid key f).wp Q s := by
  refine wp_ask_bind (fun e _ => her e) fun _ hb => ?_
  rw [wp_bind, wp_update]
  by_cases hf : s.entry f = .default
  · refine wp_ask_bind ?_ fun _ _ => ?_
    · intro e he
      simp [entry_entryOrDefault, hf, FidReservations.isEmpty_iff.mpr rfl] at he
    · rw [wp_update]
      change Q (.ok ()) ((s.entryOrDefault f).setEntry f
        { (s.entryOrDefault f).entry f with exclusive := some ⟨key, false⟩ })
      rw [setEntry_entryOrDefault, entry_entryOrDefault, hf]
      exact hok _ (.held (by simpa using hb) hf)
  · rw [entryOrDefault_eq_self hf]
    refine wp_ask_bind (fun e _ => her e) fun _ hem => ?_
    rw [guard_ok, Bool.not_eq_true', Bool.not_eq_false] at hem
    exact absurd (FidReservations.isEmpty_iff.mp hem) hf

/-- `reserve_shared_fid` fails without effect or joins those sharing the fid. -/
theorem wp_reserveSharedFid (hok : ∀ s', Acquire key s f .shared s' → Q (.ok ()) s') :
    (reserveSharedFid key f).wp Q s := by
  refine wp_ask_bind (fun e _ => her e) fun _ hb => ?_
  rw [wp_bind, wp_update]
  by_cases hf : (s.entry f).exclusive = none
  · refine wp_ask_bind ?_ fun _ _ => ?_
    · intro e he
      simp [entry_entryOrDefault, hf] at he
    · rw [wp_update]
      change Q (.ok ()) ((s.entryOrDefault f).setEntry f
        ⟨((s.entryOrDefault f).entry f).exclusive,
          insert key ((s.entryOrDefault f).entry f).shared⟩)
      rw [setEntry_entryOrDefault, entry_entryOrDefault, hf]
      exact hok _ (.shared (by simpa using hb) hf)
  · have hne : s.entry f ≠ .default := by
      intro he
      rw [he] at hf
      exact hf rfl
    rw [entryOrDefault_eq_self hne]
    refine wp_ask_bind (fun e _ => her e) fun _ hn => ?_
    rw [guard_ok, Option.not_isSome_iff_eq_none] at hn
    exact absurd hn hf

end

end Operations

/-- `retire_fid` fails without effect or unbinds the fid and keeps its number. -/
theorem wp_retireFid {Q : Result FidState → Session → Prop} (her : ∀ e, Q (.error e) s)
    (hok : ∀ st s', s.fids[f]? = some st → Acquire key s f .retired s' → Q (.ok st) s') :
    (retireFid key f).wp Q s := by
  refine wp_ask_bind (fun e _ => her e) fun _ hf => ?_
  refine wp_ask_bind (fun e _ => her e) fun st hst => ?_
  rw [ensureUnreserved_ok_iff] at hf
  rw [okOr_ok_iff] at hst
  rw [wp_bind, wp_update]
  exact hok st _ hst (.retired (mem_iff_exists.mpr ⟨st, hst⟩) hf)

end Session

end R9P.Server
