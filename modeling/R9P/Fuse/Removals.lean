import R9P.Fuse.Effects

/-!
# Renamings that fail

Library `Fuse`. Where a server does not rename over a file, the bridge removes the file and asks
again. From then on the renaming has to succeed: what was removed cannot be brought back.
-/

namespace R9P.Fuse
open Base Base.Checked Wire

variable {S : Service} {P : S.State → Prop} {α : Type} {b b₁ b' : Bridge S} {plan : RenamePlan}
  {oldName newName : Bytes}

/-- No removal was asked for between two states. -/
def Unremoved (b b' : Bridge S) : Prop :=
  ∃ added, b'.sent = b.sent ++ added ∧ ∀ sent ∈ added, sent.call.removes = false

theorem Unremoved.trans (h : Unremoved b b₁) (h' : Unremoved b₁ b') : Unremoved b b' := by
  obtain ⟨added, hs, ha⟩ := h
  obtain ⟨added', hs', ha'⟩ := h'
  refine ⟨added ++ added', by rw [hs', hs, List.append_assoc], fun sent hm => ?_⟩
  rcases List.mem_append.mp hm with hm | hm
  · exact ha sent hm
  · exact ha' sent hm

/-- A prepared renaming comes to a removal: it was refused with EEXIST within one directory, and
at the new name a file is found that is no directory. -/
def Meets (plan : RenamePlan) (newName : Bytes) (b : Bridge S) (existing : Fid)
    (found : Bridge S) : Prop :=
  ∃ e stat b₁ b₂, plan.crossParent = false ∧
    (renameFid plan.fid newName).exec b = (.error e, b₁) ∧ e.errno = EEXIST ∧
    (walkOne plan.oldParentFid newName).exec b₁ = (.ok existing, b₂) ∧
    (statOr [existing, plan.fid] existing).exec b₂ = (.ok stat, found) ∧ isDir stat = false ∧
    existing ≠ ROOT_FID

/-- A renaming comes to a removal. -/
def Removing (oldParent newParent : Nat) (oldName newName : Bytes) (b : Bridge S)
    (plan : RenamePlan) (existing : Fid) (found : Bridge S) : Prop :=
  ∃ b₁, (planRename oldParent newParent oldName newName).exec b = (.ok plan, b₁) ∧
    Meets plan newName b₁ existing found

section

variable {existing existing' : Fid} {found found' : Bridge S} {plan' : RenamePlan}
  {oldParent newParent : Nat}

theorem Meets.unique (h : Meets plan newName b existing found)
    (h' : Meets plan newName b existing' found') : existing' = existing ∧ found' = found := by
  obtain ⟨e, stat, b₁, b₂, _, hr, _, hw, hs, _⟩ := h
  obtain ⟨e', stat', b₁', b₂', _, hr', _, hw', hs', _⟩ := h'
  cases hr.symm.trans hr'
  cases hw.symm.trans hw'
  cases hs.symm.trans hs'
  exact ⟨rfl, rfl⟩

theorem Removing.unique (h : Removing oldParent newParent oldName newName b plan existing found)
    (h' : Removing oldParent newParent oldName newName b plan' existing' found') :
    plan' = plan ∧ existing' = existing ∧ found' = found := by
  obtain ⟨b₁, hp, hm⟩ := h
  obtain ⟨b₁', hp', hm'⟩ := h'
  cases hp.symm.trans hp'
  exact ⟨rfl, hm.unique hm'⟩

/-! ### Renamings without a removal -/

end

/-- The answer to a request, if it is an error. -/
def Reply.errno : Reply → Option Nat
  | .error errno => some errno
  | _ => none

/-- A removal that was carried out. -/
def Sent.removed (sent : Sent) : Bool := sent.call.removes && sent.answer matches .done

end R9P.Fuse
