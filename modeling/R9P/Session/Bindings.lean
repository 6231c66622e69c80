import R9P.Session.Namespace

/-!
# The fids of a namespace client

Library `Session`. What the operations of a namespace client do to its table of fids: routing
leaves it alone, a new fid is one that was free, and only the operations that make or end a
fid change it.
-/

namespace R9P.Session
open Base Base.Checked Wire

namespace NamespaceClient

variable {ω α : Type} {N : Network ω} {self : NamespaceClient ω}

/-! ### New fids -/

/-- How many fids the loop looks at before this one. -/
def ahead (fid next : Fid) : Nat := (fid.toNat + 4294967294 - next.toNat) % 4294967294

theorem nextFid_toNat (fid : Fid) :
    (nextFid fid).toNat = if fid.toNat = 4294967295 then 2 else fid.toNat + 1 := by
  unfold nextFid
  by_cases h : fid = 0xffffffff
  · subst h
    rfl
  · have hne : fid.toNat ≠ 4294967295 := fun heq => h (UInt32.toNat_inj.mp heq)
    have hlt := fid.toNat_lt
    rw [if_neg h, if_neg hne, UInt32.toNat_add]
    have ho : (1 : UInt32).toNat = 1 := rfl
    omega

variable {bindings : Fid → Option FidBinding} {fid next start : Fid} {n : Nat}

/-- Passing over a fid brings every other one closer. -/
theorem ahead_nextFid (hfd : 2 ≤ fid.toNat) (hn : 2 ≤ next.toNat) (hne : next ≠ fid) :
    2 ≤ (nextFid next).toNat ∧ ahead fid (nextFid next) + 1 = ahead fid next := by
  have hd : next.toNat ≠ fid.toNat := fun heq => hne (UInt32.toNat_inj.mp heq)
  have hf := fid.toNat_lt
  have hnx := next.toNat_lt
  unfold ahead
  rw [nextFid_toNat]
  split <;> omega

/-- A fid that is handed out was free. -/
theorem allocateLoop_some {after : Fid}
    (h : allocateLoop bindings start n next = (some fid, after)) : bindings fid = none := by
  induction n generalizing next with
  | zero => cases h
  | succ n ih =>
    rw [allocateLoop] at h
    split at h
    · next hf =>
      cases h
      exact Option.isNone_iff_eq_none.mp hf.2
    split at h
    · cases h
    · exact ih h

/-- The loop comes to a free fid before it comes back to its start. -/
theorem allocateLoop_finds (hf : bindings fid = none) (hfd : 2 ≤ fid.toNat) (hl : fid ≠ NOFID)
    (hn : 2 ≤ next.toNat) (ha : ahead fid next ≤ ahead fid start) (hfl : ahead fid next < n) :
    ∃ found after, allocateLoop bindings start n next = (some found, after) := by
  induction n generalizing next with
  | zero => omega
  | succ n ih =>
    rw [allocateLoop]
    by_cases ht : next ≠ NOFID ∧ (bindings next).isNone
    · rw [if_pos ht]
      exact ⟨_, _, rfl⟩
    · have hne : next ≠ fid := by
        rintro rfl
        exact ht ⟨hl, Option.isNone_iff_eq_none.mpr hf⟩
      obtain ⟨hn', hc⟩ := ahead_nextFid hfd hn hne
      rw [if_neg ht, if_neg]
      · exact ih hn' (by omega) (by omega)
      · intro hr
        rw [hr] at hc
        omega

theorem ahead_lt (fid next : Fid) : ahead fid next < 2 ^ 32 :=
  Nat.lt_trans (Nat.mod_lt _ (by decide)) (by decide)

/-- With a fid left a binding gets one. -/
theorem allocateBinding_ok (self : NamespaceClient ω) (binding : FidBinding)
    (hf : self.bindings fid = none) (hfd : 2 ≤ fid.toNat) (hl : fid ≠ NOFID)
    (hn : 2 ≤ self.next.toNat) :
    ∃ found after, (allocateBinding binding).exec self = (.ok found, after) ∧
      after.bindings found = some binding ∧ after.world = self.world := by
  obtain ⟨found, next, hlp⟩ := allocateLoop_finds (n := 2 ^ 32) hf hfd hl hn
    (Nat.le_refl _) (ahead_lt _ _)
  refine ⟨found, { self with
    next := next
    bindings := Function.update self.bindings found (some binding) }, ?_, ?_, rfl⟩
  · rw [allocateBinding, Checked.exec_ofExec, hlp]
  · exact Function.update_self _ _ _

theorem two_le_nextFid (h : 2 ≤ next.toNat) : 2 ≤ (nextFid next).toNat := by
  rw [nextFid_toNat]
  split <;> omega

/-- The loop hands out dynamic fids only, and leaves the counter at one or at `NOFID`. -/
theorem allocateLoop_dynamic (hn : 2 ≤ next.toNat) :
    2 ≤ (allocateLoop bindings start n next).2.toNat ∧
      ∀ fid ∈ (allocateLoop bindings start n next).1, fid ≠ NOFID ∧ 2 ≤ fid.toNat := by
  fun_induction allocateLoop bindings start n next with
  | case1 next => exact ⟨hn, nofun⟩
  | case2 n candidate next hc =>
    refine ⟨two_le_nextFid hn, fun fid hf => ?_⟩
    cases hf
    exact ⟨hc.1, hn⟩
  | case3 n candidate next _ _ => exact ⟨two_le_nextFid hn, nofun⟩
  | case4 n candidate next _ _ ih => exact ih (two_le_nextFid hn)

/-- The loop ends by itself, so that more rounds change nothing. -/
theorem allocateLoop_ends (hs : 2 ≤ start.toNat) (hn : 2 ≤ next.toNat)
    (hfl : ahead start (nextFid next) < n) (extra : Nat) :
    allocateLoop bindings start (n + extra) next = allocateLoop bindings start n next := by
  induction n generalizing next with
  | zero => omega
  | succ n ih =>
    rw [Nat.add_right_comm, allocateLoop, allocateLoop]
    by_cases hr : nextFid next = start
    · rw [if_pos hr, if_pos hr]
    · have hn' := two_le_nextFid hn
      obtain ⟨-, hc⟩ := ahead_nextFid hs hn' hr
      rw [ih hn' (by omega)]

/-- The allocation ends, hands out a free dynamic fid if there is one, and leaves all bindings. -/
theorem allocateBinding_exact (self : NamespaceClient ω) (binding : FidBinding)
    (hn : 2 ≤ self.next.toNat) :
    (∀ extra, allocateLoop self.bindings self.next (2 ^ 32 + extra) self.next =
      allocateLoop self.bindings self.next (2 ^ 32) self.next) ∧
    (allocateBinding binding).wp (fun result after => 2 ≤ after.next.toNat ∧
      match result with
      | .ok fid => self.bindings fid = none ∧ fid ≠ NOFID ∧ fid ≠ ROOT_FID ∧
        after.bindings = Function.update self.bindings fid (some binding)
      | .error _ => (∀ fid, 2 ≤ fid.toNat → fid ≠ NOFID → self.bindings fid ≠ none) ∧
        after.bindings = self.bindings) self := by
  refine ⟨allocateLoop_ends hn hn (ahead_lt _ _), ?_⟩
  obtain ⟨hd, hf⟩ := @allocateLoop_dynamic self.bindings self.next self.next (2 ^ 32) hn
  unfold allocateBinding
  rw [wp_ofExec]
  rcases h : allocateLoop self.bindings self.next (2 ^ 32) self.next with ⟨_ | found, after⟩ <;>
    rw [h] at hd hf
  · refine ⟨hd, fun fid hfd hl hfree => ?_, rfl⟩
    obtain ⟨_, _, hlp⟩ := allocateLoop_finds hfree hfd hl hn (Nat.le_refl _) (ahead_lt _ _)
    cases h.symm.trans hlp
  · obtain ⟨hl, hfd⟩ := hf found rfl
    refine ⟨hd, allocateLoop_some h, hl, ?_, rfl⟩
    rintro rfl
    exact absurd hfd (by decide)

/-- A client whose next fid is `NOFID`, with the first dynamic fid in use. -/
def crowded : NamespaceClient Unit where
  root := 0
  routes := []
  next := NOFID
  bindings := fun fid => if fid = ROOT_FID ∨ fid = 2 then some ⟨[], .referralDirectory⟩ else none
  world := ()

/-- A directory above the mounts. -/
def above : FidBinding := ⟨[utf8 "a"], .referralDirectory⟩

/-- The allocation comes round and passes over the fid that is in use. -/
theorem allocateBinding_exact_crowded : ∃ after,
    (allocateBinding above).exec crowded = (.ok 3, after) ∧ crowded.bindings 3 = none ∧
      after.bindings = Function.update crowded.bindings 3 (some above) := by
  have he : ((allocateBinding above).exec crowded).1 = .ok 3 := by rfl
  have h := (allocateBinding_exact crowded above (by decide)).2
  unfold wp at h
  rcases hx : (allocateBinding above).exec crowded with ⟨result, after⟩
  rw [hx] at he h
  cases he
  exact ⟨after, rfl, h.2.1, h.2.2.2.2⟩

end NamespaceClient

end R9P.Session
