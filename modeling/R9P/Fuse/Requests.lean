import R9P.Fuse.Effects

/-!
# Requests through handles

Library `Fuse`. Opening, reading, writing and closing a file and reading a directory: besides new
bindings these change the handles and may mark nodes stale, but the nodes stay as they are.
-/

namespace R9P.Fuse
open Base Base.Checked Wire

variable {S : Service} {α : Type} {R : Bridge S → Bridge S → Prop}

variable (client nodeid fh : Nat) (handle : Handle) (fid : Fid) (mode : UInt8) (offset size : Nat)

namespace Quiet

section

variable (h : Quiet R)
include h

private theorem steps_callOn {c : Call} (hc : c.removes = false) :
    Steps R (callOn client c : Op S Answer) :=
  h.bind (h.steps_ask _) fun _ => (h.steps_call hc).ite (h.steps_pure _)

theorem steps_performOn {c : Call} (hc : c.removes = false)
    (what : String) : Steps R (performOn client c what : Op S Unit) := by
  refine h.bind (h.steps_callOn client hc) fun answer => ?_
  cases answer with
  | done => exact h.steps_pure _
  | _ => exact h.steps_throw _

theorem steps_cloneFidOn : Steps R (cloneFidOn client fid : Op S Fid) := by
  refine h.bind (h.steps_callOn client rfl) fun answer => ?_
  cases answer with
  | walked newFid => exact h.bind (h.steps_bindFid _) fun _ => h.steps_pure _
  | _ => exact h.steps_throw _

theorem steps_statOn : Steps R (statOn client fid : Op S Stat) := by
  refine h.bind (h.steps_callOn client rfl) fun answer => ?_
  cases answer with
  | stat stat => exact h.steps_pure _
  | _ => exact h.steps_throw _

theorem steps_readOn (count : Nat) : Steps R (readOn client fid offset count : Op S Bytes) := by
  refine h.bind (h.steps_callOn client rfl) fun answer => ?_
  cases answer with
  | data bytes => exact h.steps_pure _
  | _ => exact h.steps_throw _

theorem steps_writeOn (data : Bytes) : Steps R (writeOn client fid offset data : Op S Nat) := by
  refine h.bind (h.steps_callOn client rfl) fun answer => ?_
  cases answer with
  | written count => exact h.steps_pure _
  | _ => exact h.steps_throw _

theorem steps_openFid : Steps R (openFid fid mode : Op S Unit) := h.steps_perform rfl _

/-- What is cleaned up behind an error. -/
theorem steps_release_throw (e : Error) : Steps R (do release fid; throw e : Op S α) :=
  h.bind (h.steps_release fid) fun _ => h.steps_throw e

end

end Quiet

/-- The effects of requests through handles. -/
structure Handling (R : Bridge S → Bridge S → Prop) : Prop extends Rebinding R where
  handled : ∀ b table, table.nodes = b.table.nodes → table.nextNodeid = b.table.nextNodeid →
    R b { b with table := table }
  marked : ∀ b path includeDescendants,
    R b { b with table := (b.table.markPathWith path includeDescendants).2 }

namespace Handling

section

variable (h : Handling R)
include h

private theorem steps_openHandle :
    Steps R (change (·.openHandle handle) : Op S Nat) := fun b => h.handled b _ rfl rfl

theorem steps_changeHandle (f : Handle → Handle) : Steps R (changeHandle fh f : Op S Unit) := by
  refine h.steps_alter fun b a table hc => ?_
  obtain ⟨handle, _, hok⟩ := bind_ok.mp hc
  cases hok
  exact h.handled b _ rfl rfl

/-! ### Opening and closing -/

private theorem steps_openOrFallBack : Steps R (openOrFallBack fid mode : Op S UInt8) := by
  refine h.bind_attempt (h.steps_openFid fid mode) (fun _ => h.steps_pure _) fun e => .ite ?_ ?_
  · exact h.bind_attempt (h.steps_openFid fid _) (fun _ => h.steps_pure _)
      fun e => h.steps_release_throw fid e
  · exact h.steps_release_throw fid e

private theorem steps_openOnce (isDirOpen : Bool) :
    Steps R (openOnce nodeid mode isDirOpen : Op S Reply) := by
  refine h.bind (h.steps_view _) fun _ => (h.steps_pure _).ite ?_
  refine h.bind (h.bind (h.steps_view _) fun _ => h.steps_walkFromSource _) fun fid => ?_
  refine h.bind (h.steps_openOrFallBack fid _) fun _ => h.bind (h.steps_ask _) fun _ => ?_
  exact h.bind (h.steps_openHandle _) fun _ => h.steps_pure _

theorem steps_openNode (isDirOpen : Bool) :
    Steps R (openNode nodeid mode isDirOpen : Op S Reply) := by
  refine h.bind_attempt (h.steps_openOnce _ _ _) (fun _ => h.steps_pure _) fun e =>
    .ite ?_ (.ite ?_ (h.steps_throw e))
  · exact h.bind (h.steps_recoverNamespaceShape _) fun _ => h.steps_openOnce _ _ _
  · exact h.bind h.steps_reconnect fun _ => (h.steps_openOnce _ _ _).ite (h.steps_throw _)

private theorem steps_clunkStaleBindings (stale : List StaleBinding) :
    Steps R (clunkStaleBindings stale : Op S Unit) := h.steps_releaseAll _

private theorem steps_invalidate : Steps R (invalidateNamespaceBindingsAfterReply : Op S Unit) :=
  h.bind (fun b => h.marked b _ _) fun _ => h.steps_clunkStaleBindings _

private theorem steps_closeHandle : Steps R (closeHandle nodeid handle fid : Op S Unit) := by
  refine h.bind_attempt (h.steps_clunkOn _ _) (fun _ => h.steps_invalidate.ite (h.steps_pure ()))
    fun e => (h.steps_pure ()).ite (.ite ?_ (.ite ?_ (h.steps_throw e)))
  · exact h.bind h.steps_reconnect fun _ => h.steps_throw _
  · refine h.steps_invalidate.ite ?_
    exact h.bind (h.steps_recoverNamespaceShape _) fun _ => h.steps_throw _

theorem steps_releaseHandle : Steps R (releaseHandle nodeid fh : Op S Reply) := by
  refine h.bind (fun b => h.handled b _ rfl rfl) fun removed => ?_
  cases removed with
  | none => exact h.steps_pure _
  | some handle =>
    refine .ite ?_ ((h.steps_pure _).ite ?_)
    · cases handle.directory with
      | none => exact h.steps_pure _
      | some stream => exact h.bind (h.steps_clunkOn _ _).attempt fun _ => h.steps_pure _
    · cases handle.fid with
      | none => exact h.steps_pure _
      | some fid => exact h.bind (h.steps_closeHandle _ _ _) fun _ => h.steps_pure _

private theorem steps_commitHandle : Steps R (commitHandle nodeid handle fid : Op S Unit) := by
  refine h.bind_attempt (h.steps_clunkOn _ _) (fun _ => h.steps_pure ()) fun e =>
    .ite ?_ (.ite ((h.steps_pure ()).ite ?_) (h.steps_throw e))
  · exact h.bind h.steps_reconnect fun _ => h.steps_throw _
  · exact h.bind (h.steps_recoverNamespaceShape _) fun _ => h.steps_throw _

theorem steps_flush : Steps R (flush nodeid fh : Op S Reply) := by
  refine h.bind (h.steps_view _) fun handle => .ite ?_ (h.steps_pure _)
  refine h.bind (h.steps_ask _) fun fid => h.bind (h.steps_commitHandle _ _ _) fun _ => ?_
  refine h.bind (h.steps_changeHandle _ _) fun _ => h.bind h.steps_invalidate fun _ => ?_
  exact h.steps_pure _

/-! ### Reading and writing -/

private theorem steps_readDirectoryForRelocation (parentFid : Fid) :
    Steps R (readDirectoryForRelocation parentFid : Op S (List DirEntry)) := by
  refine h.bind (h.steps_cloneFid _) fun fid => ?_
  refine h.bind_attempt (h.steps_openFid fid _) (fun _ => ?_) fun e => h.steps_release_throw fid e
  have hr : Steps R (readOpenDirectory fid : Op S (List DirEntry)) := by
    refine h.bind (h.steps_call rfl) fun answer => ?_
    cases answer with
    | entries entries length => exact h.steps_pure _
    | _ => exact h.steps_throw _
  exact h.bind hr.attempt fun _ => h.bind (h.steps_release _) fun _ => h.steps_ask _

private theorem steps_relocate (parentFid : Fid) (expected : Qid) :
    Steps R (relocate parentFid expected : Op S (Fid × Stat)) := by
  refine h.bind (h.steps_readDirectoryForRelocation _) fun _ => h.bind (h.steps_ask _) fun _ => ?_
  refine h.bind (h.steps_walkOne _ _) fun fid => h.bind (h.steps_statOr _ _) fun _ => ?_
  exact (h.steps_pure _).ite (h.steps_release_throw fid _)

theorem steps_relocatedReadBinding : Steps R (relocatedReadBinding nodeid : Op S (Fid × Stat)) := by
  refine h.bind (h.steps_view _) fun _ => h.bind (h.steps_refuseIf _ _) fun _ => ?_
  refine h.bind (h.steps_walkFromSource _) fun _ => h.bind (h.steps_relocate _ _).attempt fun _ =>
    ?_
  exact h.bind (h.steps_release _) fun _ => h.steps_ask _

private theorem steps_readBinding : Steps R (readBinding nodeid : Op S (Fid × Stat)) := by
  refine h.bind_attempt (h.steps_boundNodeFid nodeid) (fun _ => ?_)
    fun e => (h.steps_relocatedReadBinding nodeid).ite (h.steps_throw e)
  exact h.bind (h.steps_view _) fun _ => h.bind (h.steps_cloneFid _) fun _ => h.steps_pure _

private theorem steps_reopenReadBinding : Steps R (reopenReadBinding nodeid : Op S (Fid × Stat)) :=
  h.bind (h.steps_readBinding nodeid) fun _ => h.bind_attempt (h.steps_openFid _ _)
    (fun _ => h.steps_pure _) fun e => h.steps_release_throw _ e

theorem steps_rebindHandle (admits : Handle → Bool) (message : String) (f : Handle → Handle) :
    Steps R (rebindHandle fh fid admits message f : Op S Unit) := by
  refine h.bind (h.steps_ask _) fun _ => h.bind_attempt (h.steps_view _) (fun old => ?_)
    fun e => h.steps_release_throw fid e
  refine .ite ?_ (h.steps_release_throw fid _)
  refine h.bind (h.steps_changeHandle _ _) fun _ => h.bind (h.steps_ask _) fun _ => ?_
  exact h.bind (h.steps_clunkOn _ _).attempt fun _ => h.steps_pure _

private theorem steps_readFromReopenedHandle (count : Nat) :
    Steps R (readFromReopenedHandle nodeid fh offset count : Op S Bytes) :=
  h.bind (h.steps_reopenReadBinding nodeid) fun _ => h.bind (h.steps_rebindHandle _ _ _ _ _)
    fun _ =>
    h.bind (h.steps_ask _) fun _ => h.steps_readOn _ _ _ _

private theorem steps_readWithRecovery (count : Nat) :
    Steps R (readWithRecovery nodeid fh handle fid offset count : Op S Bytes) := by
  refine h.bind_attempt (h.steps_readOn _ _ _ _) (fun _ => h.steps_pure _) fun e =>
    .ite ?_ (.ite ?_ (h.steps_throw e))
  · exact h.bind h.steps_reconnect fun _ =>
      (h.steps_readFromReopenedHandle _ _ _ _).ite (h.steps_throw _)
  · exact h.bind (h.steps_recoverNamespaceShape _) fun _ =>
      (h.steps_readFromReopenedHandle _ _ _ _).ite (h.steps_throw _)

theorem steps_read : Steps R (read nodeid fh offset size : Op S Reply) := by
  refine h.bind (h.steps_view _) fun _ => (h.steps_pure _).ite ?_
  refine h.bind (h.steps_view _) fun _ => h.bind (h.steps_ask _) fun _ => ?_
  exact h.bind (h.steps_readWithRecovery _ _ _ _ _ _) fun _ => h.steps_pure _

theorem steps_readlink : Steps R (readlink nodeid : Op S Reply) := by
  refine h.bind (h.steps_view _) fun _ => (h.steps_pure _).ite ?_
  refine h.bind (h.steps_boundNodeFid _) fun _ => h.bind (h.steps_ask _) fun _ => ?_
  refine h.bind_attempt (h.steps_readOn _ _ _ _) (fun _ => h.steps_pure _) fun e =>
    .ite ?_ (.ite ?_ (h.steps_throw e))
  · exact h.bind h.steps_reconnect fun _ => h.steps_throw _
  · exact h.bind (h.steps_recoverNamespaceShape _) fun _ => h.steps_throw _

private theorem steps_writeFromReopenedWriteHandle (data : Bytes) :
    Steps R (writeFromReopenedWriteHandle nodeid fh offset data : Op S Nat) := by
  refine h.bind (h.steps_boundNodeFid _) fun _ => h.bind (h.steps_cloneFid _) fun fid => ?_
  refine h.bind_attempt (h.steps_openFid fid _) (fun _ => ?_) fun e => h.steps_release_throw fid e
  exact h.bind (h.steps_rebindHandle _ _ _ _ _) fun _ => h.bind (h.steps_ask _) fun _ =>
    h.steps_writeOn _ _ _ _

private theorem steps_writeWithRecovery (path : Path) (handle : Handle)
    (fid : Fid) (offset : Nat) (data : Bytes) :
    Steps R (writeWithRecovery nodeid fh path handle fid offset data : Op S Nat) := by
  refine h.bind_attempt (h.steps_writeOn _ _ _ _) (fun _ => h.steps_pure _) fun e =>
    .ite ?_ (.ite ?_ (h.steps_throw e))
  · exact h.bind h.steps_reconnect fun _ => h.steps_throw _
  · exact h.bind (h.steps_recoverNamespaceShape _) fun _ =>
      (h.steps_writeFromReopenedWriteHandle _ _ _ _).ite (h.steps_throw _)

theorem steps_write (data : Bytes) : Steps R (write nodeid fh offset data : Op S Reply) := by
  refine h.bind (h.steps_view _) fun _ => h.bind (h.steps_view _) fun _ => ?_
  refine h.bind (h.steps_ask _) fun _ => h.bind (h.steps_writeWithRecovery _ _ _ _ _ _ _) fun _ =>
    ?_
  refine h.bind ((h.steps_changeHandle _ _).ite (h.steps_pure ())) fun _ => ?_
  exact (h.bind h.steps_invalidate fun _ => h.steps_pure _).ite (h.steps_pure _)

/-! ### Directories and changes -/

theorem steps_reopenDirectoryHandle : Steps R (reopenDirectoryHandle nodeid fh : Op S Unit) := by
  refine h.bind (h.steps_boundNodeFid _) fun _ => h.bind (h.steps_cloneFid _) fun fid => ?_
  refine h.bind_attempt (h.steps_openFid fid _) (fun _ => ?_) fun e => h.steps_release_throw fid e
  refine h.bind (h.steps_ask _) fun client => h.bind_attempt ?_ (fun _ => ?_)
    fun e => h.steps_release_throw fid e
  · refine h.steps_alter fun b stream table hr => ?_
    obtain ⟨handle, _, hr⟩ := bind_ok.mp hr
    by_cases hd : (!handle.isDir) = true
    · rw [if_pos hd] at hr
      cases hr
    · rw [if_neg hd] at hr
      cases hs : handle.directory with
      | none =>
        rw [hs] at hr
        cases hr
      | some stream =>
        rw [hs] at hr
        cases hr
        exact h.handled b _ rfl rfl
  · exact h.bind (h.steps_clunkOn _ _).attempt fun _ => h.steps_pure _

private theorem steps_fillStream (encoding : DirectoryEncoding) (reads : Nat) :
    Steps R (fillStream encoding fh offset size reads : Op S (List DirEntry)) := by
  induction reads with
  | zero => exact h.steps_throw _
  | succ reads ih =>
    refine h.bind (h.steps_view _) fun handle => ?_
    cases handle.directory with
    | none => exact h.steps_throw _
    | some stream =>
      refine (h.steps_pure _).ite (h.bind (h.steps_callOn _ rfl) fun answer => ?_)
      cases answer with
      | entries entries length =>
        refine .ite ?_ ?_
        · exact h.bind (h.steps_changeHandle _ _) fun _ => h.steps_pure _
        · exact h.bind (h.steps_changeHandle _ _) fun _ => ih
      | _ => exact h.steps_throw _

private theorem steps_directoryEntriesForRead (encoding : DirectoryEncoding) (reads : Nat) :
    Steps R (directoryEntriesForRead encoding fh offset size reads : Op S (List DirEntry)) :=
  h.bind (h.steps_view _) fun _ => h.bind (h.steps_refuseIf _ _) fun _ =>
    h.steps_fillStream _ _ _ _ _

theorem steps_directoryEntries (encoding : DirectoryEncoding) (reads : Nat) :
    Steps R (directoryEntriesForReadWithRecovery encoding nodeid fh offset size reads :
      Op S (List DirEntry)) := by
  refine h.bind_attempt (h.steps_directoryEntriesForRead _ _ _ _ _) (fun _ => h.steps_pure _)
    fun e => .ite ?_ (.ite ?_ (h.steps_throw e))
  · exact h.bind h.steps_reconnect fun _ => h.bind (h.steps_reopenDirectoryHandle _ _) fun _ =>
      h.steps_directoryEntriesForRead _ _ _ _ _
  · exact h.bind (h.steps_recoverNamespaceShape _) fun _ =>
      h.bind (h.steps_reopenDirectoryHandle _ _) fun _ => h.steps_directoryEntriesForRead _ _ _ _ _

theorem steps_readdir (reads : Nat) :
    Steps R (readdir nodeid fh offset size reads : Op S Reply) :=
  h.bind (h.steps_directoryEntries _ _ _ _ _ _) fun _ => h.bind (h.steps_view _) fun _ =>
    h.steps_pure _

theorem steps_applyNamespaceChange (change : MountedChange) :
    Steps R (applyNamespaceChange change : Op S Reply) := by
  have hm (path : Path) (includeDescendants : Bool) :
      Steps R (Fuse.change (·.markPathWith path includeDescendants) : Op S _) :=
    fun b => h.marked b path includeDescendants
  have hc (stale : List StaleBinding) :
      Steps R (do clunkStaleBindings stale; pure .empty : Op S Reply) :=
    h.bind (h.steps_clunkStaleBindings stale) fun _ => h.steps_pure _
  cases change with
  | root => exact h.bind (hm _ _) fun _ => h.steps_pure _
  | created path | modified path | removed path => exact h.bind (hm _ _) fun _ => hc _
  | renamed old new => exact h.bind (hm _ _) fun _ => h.bind (hm _ _) fun _ => hc _

end

end Handling

end R9P.Fuse
