import R9P.Fuse.Handles

/-!
# What the handlers may do

Library `Fuse`. The handlers are built from a few effects: calls, changes to the set of bound
fids, the clock, new bindings of nodes and new connections. A relation between states that allows
these effects allows whole computations made of them, in either outcome.
-/

namespace R9P.Fuse
open Base Base.Checked Wire

variable {S : Service} {α : Type} {R : Bridge S → Bridge S → Prop}

/-- A mount of a whole namespace before any request. -/
def Bridge.mounted (table : NodeTable) (live : List Fid) (server : S.State) : Bridge S where
  table := table
  client := 0
  live := .ofList live
  server := server
  sent := []
  clock := []
  sourcePath := []
  negativeTimeout := false
  patience := 1

/-- A file with a number for its qid. -/
def fileStat (name : String) (number : UInt64) : Stat :=
  syntheticCreatedStat (utf8 name) ⟨0, 0, number⟩ 0o644

/-- The state behind a call. -/
def Bridge.called (b : Bridge S) (c : Call) : Bridge S :=
  { b with
    server := (S.respond b.server c).2
    sent := b.sent ++ [⟨b.client, c, (S.respond b.server c).1⟩] }

variable {β : Type} {b : Bridge S}

/-- A change to the table hands on what it found, and the rest runs on the changed table. -/
theorem wp_change_bind {f : NodeTable → α × NodeTable} {k : α → Op S β}
    {Q : Except Error β → Bridge S → Prop} :
    wp (change f >>= k) Q b ↔ wp (k (f b.table).1) Q { b with table := (f b.table).2 } := by
  have h : (change f).exec b = (.ok (f b.table).1, { b with table := (f b.table).2 }) := rfl
  unfold wp
  rw [exec_bind_ok h]

variable {f : NodeTable → Except Error (α × NodeTable)}

theorem exec_alter_ok {a : α} {table : NodeTable} (h : f b.table = .ok (a, table)) :
    (alter f).exec b = (.ok a, { b with table := table }) := by
  rw [alter, exec_ofExec, h]

theorem exec_alter_error {e : Error}
    (h : f b.table = .error e) : (alter f).exec b = (.error e, b) := by
  rw [alter, exec_ofExec, h]

/-- A call that removes a file. -/
def Call.removes : Call → Bool
  | .remove _ => true
  | _ => false

/-- The effects outside the table, other than removals and new connections. -/
structure Quiet (R : Bridge S → Bridge S → Prop) : Prop where
  refl : ∀ b, R b b
  trans : ∀ a b c, R a b → R b c → R a c
  called : ∀ b c, c.removes = false → R b (b.called c)
  live : ∀ b live, R b { b with live := live }
  clock : ∀ b, R b { b with clock := b.clock.tail }

variable (nodeid : Nat) (fid : Fid)

namespace Quiet

section

variable (h : Quiet R)
include h

theorem steps_pure (a : α) : Steps R (pure a : Op S α) := fun b => h.refl b

theorem steps_throw (e : Error) : Steps R (throw e : Op S α) := fun b => h.refl b

theorem steps_ask (f : Bridge S → Except Error α) : Steps R (ask f) :=
  fun b => h.refl b

theorem steps_refuseIf (condition : Bool) (e : Error) :
    Steps R (refuseIf condition e : Op S Unit) := by
  cases condition with
  | false => exact h.steps_pure ()
  | true => exact h.steps_throw e

theorem bind {x : Op S α} {f : α → Op S β} (hx : Steps R x)
    (hf : ∀ a, Steps R (f a)) : Steps R (x >>= f) :=
  have : IsTrans _ R := ⟨h.trans⟩
  hx.bind hf

/-- A computation goes on with whatever the first part came to. -/
theorem bind_attempt {x : Op S α} {f : Except Error α → Op S β}
    (hx : Steps R x) (hok : ∀ a, Steps R (f (.ok a))) (he : ∀ e, Steps R (f (.error e))) :
    Steps R (attempt x >>= f) := by
  refine h.bind hx.attempt fun r => ?_
  cases r with
  | ok a => exact hok a
  | error e => exact he e

theorem steps_call {c : Call} (hc : c.removes = false) :
    Steps R (call c) := fun b => h.called b c hc

theorem steps_view (f : NodeTable → Except Error α) : Steps R (view f : Op S α) :=
  h.steps_ask _

theorem steps_alter (hf : ∀ b a table, f b.table = .ok (a, table) → R b { b with table := table }) :
    Steps R (alter f : Op S α) := by
  intro b
  cases hfn : f b.table with
  | error e =>
    rw [exec_alter_error hfn]
    exact h.refl b
  | ok found =>
    rw [exec_alter_ok hfn]
    exact hf b found.1 found.2 hfn

theorem steps_choose : Steps R (choose : Op S Bool) := fun b => h.clock b

theorem steps_bindFid : Steps R (bindFid fid : Op S Unit) :=
  h.bind (h.steps_ask _) fun _ => h.bind (h.steps_refuseIf _ _) fun _ b => h.live b _

theorem steps_walk (names : Path) : Steps R (walk fid names : Op S Fid) := by
  refine h.bind (h.steps_call rfl) fun answer => ?_
  cases answer with
  | walked newFid => exact h.bind (h.steps_bindFid _) fun _ => h.steps_pure _
  | _ => exact h.steps_throw _

theorem steps_walkOne (name : Bytes) :
    Steps R (walkOne fid name : Op S Fid) := h.steps_walk fid [name]

theorem steps_cloneFid : Steps R (cloneFid fid : Op S Fid) :=
  h.steps_walk fid []

theorem steps_stat : Steps R (Fuse.stat fid : Op S Stat) := by
  refine h.bind (h.steps_call rfl) fun answer => ?_
  cases answer with
  | stat stat => exact h.steps_pure _
  | _ => exact h.steps_throw _

theorem steps_perform {c : Call} (hc : c.removes = false) (what : String) :
    Steps R (perform c what : Op S Unit) := by
  refine h.bind (h.steps_call hc) fun answer => ?_
  cases answer with
  | done => exact h.steps_pure _
  | _ => exact h.steps_throw _

theorem steps_clunk : Steps R (clunk fid : Op S Unit) :=
  h.bind (h.steps_refuseIf _ _) fun _ => h.bind (fun b => h.live b _) fun _ => h.steps_perform rfl _

theorem steps_release : Steps R (release fid : Op S Unit) :=
  h.bind (h.steps_clunk fid).attempt fun _ => h.steps_pure _

theorem steps_releaseAll (fids : List Fid) : Steps R (releaseAll fids : Op S Unit) := by
  induction fids with
  | nil => exact h.steps_pure ()
  | cons fid fids ih => exact h.bind (h.steps_release fid) fun _ => ih

theorem steps_clunkOn (client : Nat) (fid : Fid) : Steps R (clunkOn client fid : Op S Unit) :=
  h.bind (h.steps_ask _) fun _ => (h.steps_clunk fid).ite (h.steps_throw _)

/-- A removal, where that is allowed besides. -/
theorem steps_remove (hr : ∀ b fid, R b (b.called (.remove fid))) (fid : Fid) :
    Steps R (remove fid : Op S Unit) := by
  refine h.bind (h.steps_refuseIf _ _) fun _ => h.bind (fun b => h.live b _) fun _ => ?_
  refine h.bind (fun b => hr b fid) fun answer => ?_
  cases answer with
  | done => exact h.steps_pure _
  | _ => exact h.steps_throw _

theorem steps_create (name : Bytes) (perm : UInt32) (mode : UInt8) :
    Steps R (create fid name perm mode : Op S (Fid × Qid)) := by
  refine h.bind (h.steps_call rfl) fun answer => ?_
  cases answer with
  | created newFid qid => exact h.bind (h.steps_bindFid _) fun _ => h.steps_pure _
  | _ => exact h.steps_throw _

theorem steps_walkFromSource (relative : Path) : Steps R (walkFromSource relative : Op S Fid) :=
  h.bind (h.steps_ask _) fun _ => (h.steps_cloneFid _).ite (h.steps_walk _ _)

/-- A stat, with a way out that clunks. -/
theorem steps_statOr (cleanup : List Fid) (fid : Fid) : Steps R (statOr cleanup fid : Op S Stat) :=
  h.bind_attempt (h.steps_stat fid) (fun _ => h.steps_pure _)
    fun _ => h.bind (h.steps_releaseAll _) fun _ => h.steps_throw _

theorem steps_sourceBinding : Steps R (sourceBinding : Op S (Fid × Stat)) := by
  refine h.bind (h.steps_ask _) fun path => ?_
  refine h.bind ((h.steps_pure _).ite (h.steps_walk _ _)) fun fid => ?_
  refine h.bind_attempt (h.steps_stat fid) (fun _ => h.steps_pure _) fun e => ?_
  exact h.bind (h.steps_releaseAll _) fun _ => h.steps_throw _

theorem steps_reconnectSourceBinding (patience : Nat) :
    Steps R (reconnectSourceBinding patience : Op S (Fid × Stat)) := by
  induction patience with
  | zero => exact h.steps_throw _
  | succ patience ih =>
    refine h.bind_attempt h.steps_sourceBinding (fun _ => h.steps_pure _) fun e => ?_
    exact h.bind h.steps_choose fun _ => ih.ite (h.steps_throw _)

theorem steps_cachedNodeStatIfFresh : Steps R (cachedNodeStatIfFresh nodeid : Op S (Option Stat)) :=
  h.bind (h.steps_view _) fun _ => h.bind h.steps_choose fun _ => h.steps_pure _

theorem steps_findReplaced (newParentFid fid : Fid) (newName : Bytes) (crossParent : Bool) :
    Steps R (findReplaced newParentFid fid newName crossParent : Op S (Option Stat)) := by
  refine h.bind_attempt (h.steps_walkOne _ _) (fun existing => ?_) fun _ => h.steps_pure _
  refine h.bind (h.steps_statOr _ _) fun _ => .ite ?_ ?_
  · exact h.bind (h.steps_releaseAll _) fun _ => h.steps_throw _
  · exact h.bind (h.steps_release _) fun _ => h.steps_pure _

theorem steps_renameFid (newName : Bytes) :
    Steps R (renameFid fid newName : Op S Unit) := h.steps_perform rfl _

theorem steps_statRenamedFid (parentFid fid : Fid) (newName : Bytes) :
    Steps R (statRenamedFid parentFid fid newName : Op S (Fid × Stat)) := by
  refine h.bind_attempt (h.steps_stat _) (fun _ => h.steps_pure _) fun _ => .ite ?_ ?_
  · refine h.bind (h.steps_release _) fun _ => h.bind (h.steps_walkOne _ _) fun _ => ?_
    exact h.bind (h.steps_statOr _ _) fun _ => h.steps_pure _
  · exact h.bind (h.steps_release _) fun _ => h.steps_throw _

end

end Quiet

/-- Calls leave the table alone. -/
theorem quiet_table : Quiet fun b b' : Bridge S => b'.table = b.table where
  refl _ := rfl
  trans _ _ _ h h' := h'.trans h
  called _ _ _ := rfl
  live _ _ := rfl
  clock _ := rfl

/-! ### New bindings -/

/-- A stat that the server has told. -/
def Bridge.Answered (b : Bridge S) (stat : Stat) : Prop := ∃ sent ∈ b.sent, sent.answer = .stat stat

/-- An answer is told with the call that it answers. -/
def Told (answer : Answer) (b : Bridge S) : Prop := ∀ stat, answer = .stat stat → b.Answered stat

theorem yields_call (c : Call) : Yields Told (call c : Op S Answer) := by
  intro b answer b' h stat hs
  cases h
  exact ⟨_, List.mem_append_right _ List.mem_cons_self, hs⟩

/-- A stat is passed on from an answer. -/
theorem answered_of_exec {answer : Answer} {b' : Bridge S} {stat : Stat} {what : String}
    (he : (match answer with
      | .stat stat => pure stat
      | .failed e => throw e
      | _ => throw (unexpected what) : Op S Stat).exec b = (.ok stat, b'))
    (h : Told answer b) : b'.Answered stat := by
  cases answer with
  | stat told =>
    cases he
    exact h stat rfl
  | _ => cases he

theorem yields_stat : Yields (fun stat b => b.Answered stat) (Fuse.stat fid : Op S Stat) :=
  (yields_call (.stat fid)).bind fun _ _ _ _ ht he => answered_of_exec he ht

theorem yields_sourceBinding :
    Yields (fun binding b => b.Answered binding.2) (sourceBinding : Op S (Fid × Stat)) := by
  refine yields_bind fun path => yields_bind fun fid => ?_
  refine (yields_stat fid).bind_attempt (fun stat b binding b' hs h => ?_)
    fun e => yields_bind fun _ => yields_throw e
  cases h
  exact hs

theorem yields_reconnectSourceBinding (patience : Nat) :
    Yields (fun binding b => b.Answered binding.2)
      (reconnectSourceBinding patience : Op S (Fid × Stat)) := by
  induction patience with
  | zero => exact yields_throw _
  | succ patience ih =>
    refine yields_sourceBinding.bind_attempt (fun binding b binding' b' hb h => ?_)
      fun e => yields_bind fun early => ?_
    · cases h
      exact hb
    · by_cases ha : (sourceBindingRetryable e && early) = true
      · rw [if_pos ha]
        exact ih
      · rw [if_neg ha]
        exact yields_throw e

/-- The effects of lazy bindings and of recoveries besides. Nodes are given stats that the server
has told. -/
structure Rebinding (R : Bridge S → Bridge S → Prop) : Prop extends Quiet R where
  bound : ∀ b nodeid fid stat oldFid table, b.Answered stat →
    b.table.replaceBinding nodeid fid stat = .ok (oldFid, table) → R b { b with table := table }
  rebound : ∀ b rebound stale, (∀ binding ∈ rebound, b.Answered binding.2.2) →
    R b { b with table := b.table.applyRebindResults rebound stale }
  connected : ∀ b live, R b { b with client := b.client + 1, live := live }

namespace Rebinding

section

variable (h : Rebinding R)
include h

/-- A node is bound to a fid with the stat of the fid. -/
theorem replaceBinding {stat : Stat} (hs : b.Answered stat)
    (nodeid : Nat) (fid : Fid) {k : Option Fid → Op S α} (hk : ∀ oldFid, Steps R (k oldFid)) :
    R b ((alter (·.replaceBinding nodeid fid stat) >>= k).exec b).2 := by
  cases hbn : b.table.replaceBinding nodeid fid stat with
  | error e =>
    rw [exec_bind_error (exec_alter_error hbn)]
    exact h.refl b
  | ok bound =>
    rw [exec_bind_ok (exec_alter_ok hbn)]
    exact h.trans _ _ _ (h.bound b nodeid fid stat bound.1 bound.2 hs hbn) (hk _ _)

/-- The stat of a fid is asked for, and the node is bound. -/
theorem steps_bindNode {k : Stat → Option Fid → Op S α}
    (hk : ∀ stat oldFid, Steps R (k stat oldFid)) :
    Steps R (do
      let stat ← Fuse.stat fid
      let oldFid ← alter (·.replaceBinding nodeid fid stat)
      k stat oldFid : Op S α) :=
  have : IsTrans _ R := ⟨h.trans⟩
  (yields_stat fid).steps_bind (h.steps_stat fid) fun stat _ hs =>
    h.replaceBinding hs nodeid fid (hk stat)

theorem steps_boundNodeFid : Steps R (boundNodeFid nodeid : Op S Fid) := by
  refine h.bind (h.steps_view _) fun node => ?_
  have hb : Steps R (do
      let fid ← walkFromSource node.path
      let stat ← Fuse.stat fid
      let oldFid ← alter (·.replaceBinding nodeid fid stat)
      releaseAll oldFid.toList
      pure fid : Op S Fid) :=
    h.bind (h.steps_walkFromSource _) fun _ => h.steps_bindNode _ _ fun _ _ =>
      h.bind (h.steps_releaseAll _) fun _ => h.steps_pure _
  cases node.fid with
  | none => exact hb
  | some fid =>
    cases node.needsRebind with
    | false => exact h.steps_pure fid
    | true => exact hb

theorem steps_reconnect : Steps R (reconnect : Op S Unit) := by
  have : IsTrans _ R := ⟨h.trans⟩
  refine h.bind (fun b => h.rebound b [] b.table.nodes.keys nofun) fun _ => ?_
  refine h.bind (h.steps_perform rfl _) fun _ => h.bind (fun b => h.connected b _) fun _ => ?_
  refine h.bind (h.steps_ask _) fun patience => ?_
  refine (yields_reconnectSourceBinding patience).steps_bind
    (h.steps_reconnectSourceBinding patience) fun binding b hb => ?_
  refine h.rebound b [(ROOT_NODEID, binding.1, binding.2)] [] fun bound hbn => ?_
  rw [List.mem_singleton.mp hbn]
  exact hb

theorem steps_refreshNode : Steps R (refreshNode nodeid : Op S Unit) := by
  have : IsTrans _ R := ⟨h.trans⟩
  refine .ite ?_ (h.bind (h.steps_view _) fun _ => ?_)
  · exact yields_sourceBinding.steps_bind h.steps_sourceBinding fun binding b hb =>
      h.replaceBinding hb nodeid binding.1 fun _ => h.steps_releaseAll _
  · exact h.bind (h.steps_walkFromSource _) fun _ => h.steps_bindNode _ _ fun _ _ =>
      h.steps_releaseAll _

theorem steps_recoverNamespaceShape : Steps R (recoverNamespaceShape nodeid : Op S Unit) := by
  refine h.bind_attempt (h.steps_refreshNode nodeid) (fun _ => ?_) fun e => ?_
  · exact h.bind h.steps_choose fun _ => h.steps_reconnect.ite (h.steps_pure ())
  · exact h.bind_attempt h.steps_reconnect (fun _ => h.steps_pure ()) fun _ => h.steps_throw e

theorem steps_withRecovery {shape : Error → Bool} {recover : Op S Unit}
    {body : Op S α} (hr : Steps R recover) (hb : Steps R body) :
    Steps R (withRecovery shape recover body) := by
  refine h.bind_attempt hb (fun _ => h.steps_pure _) fun e => .ite ?_ (.ite ?_ ?_)
  · exact h.bind h.steps_reconnect fun _ => hb
  · exact h.bind hr fun _ => hb
  · exact h.steps_throw e

theorem steps_prepareRename (oldParent newParent : Nat) (oldName newName : Bytes) :
    Steps R (prepareRename oldParent newParent oldName newName : Op S RenamePlan) := by
  refine h.bind (h.steps_view _) fun _ => h.bind (h.steps_view _) fun _ => ?_
  refine h.bind (h.steps_boundNodeFid _) fun _ => ?_
  refine h.bind ((h.steps_pure _).ite (h.steps_boundNodeFid _)) fun _ => ?_
  refine h.bind (h.steps_walkOne _ _) fun _ => h.bind (h.steps_stat _) fun _ => ?_
  exact h.bind (h.steps_findReplaced _ _ _ _) fun _ => h.steps_pure _

theorem steps_planRename (oldParent newParent : Nat) (oldName newName : Bytes) :
    Steps R (planRename oldParent newParent oldName newName : Op S RenamePlan) := by
  refine h.steps_withRecovery ?_ (h.steps_prepareRename _ _ _ _)
  exact h.bind (h.steps_recoverNamespaceShape _) fun _ =>
    (h.steps_recoverNamespaceShape _).ite (h.steps_pure ())

end

end Rebinding

/-! ### What comes behind a renaming cannot fail -/

section Total

variable {plan : RenamePlan} {newName : Bytes}

theorem total_change (f : NodeTable → α × NodeTable) : Total (change f : Op S α) :=
  fun b => ⟨(f b.table).1, { b with table := (f b.table).2 }, rfl⟩

theorem total_release : Total (release fid : Op S Unit) :=
  (total_attempt _).bind fun _ => total_pure _

theorem total_releaseAll (fids : List Fid) : Total (releaseAll fids : Op S Unit) := by
  induction fids with
  | nil => exact total_pure ()
  | cons fid fids ih => exact (total_release fid).bind fun _ => ih

theorem total_rebindReplaced (after : Stat) (replaced : Option Stat) :
    Total (rebindReplaced plan newName after replaced : Op S Unit) := by
  cases replaced with
  | none => exact total_pure ()
  | some s =>
    refine (total_attempt _).bind fun replacement => ?_
    cases replacement with
    | error e => exact total_pure ()
    | ok replacement =>
      refine (total_change _).bind fun oldFid => ?_
      cases oldFid with
      | none | some oldFid => exact total_release _

end Total

end R9P.Fuse
