import R9P.Base.Runs
import R9P.Fuse.Entries

/-!
# The life of an inode

Library `Fuse`. After any sequence of requests a node that the kernel counts is there, and a
generation of a node stands for one inode. Removals take nodes away without a look at the count,
and attributes renew the stat of a node without a new generation; the two are left out where they
do harm.
-/

namespace R9P.Fuse
open Base Base.Checked Wire

variable {S : Service} {l : Ledger} {t t' : NodeTable} {b b' : Bridge S} {oldName newName : Bytes}

/-! ### Removals -/

/-- No node at or below a path is counted by the kernel. -/
def Spared (l : Ledger) (t : NodeTable) (path : Path) : Prop :=
  ∀ (nodeid : Nat) (node : Node), t.nodes[nodeid]? = some node → path <+: node.path →
    l.entries nodeid ≤ l.forgotten nodeid

theorem Matches.removePathSubtree {path : Path} (h : Matches l t) (hs : Spared l t path) :
    Matches l (t.removePathSubtree path).2 := by
  unfold NodeTable.removePathSubtree
  split
  · exact h
  · refine h.dropped fun nodeid node hn hp => hs nodeid node hn ?_
    exact List.isPrefixOf_iff_prefix.mp (by simpa using hp)

/-- Every node has the path that it had. -/
def Stays (b b' : Bridge S) : Prop :=
  ∀ nodeid : Nat, (b'.table.nodes[nodeid]?).map Node.path = (b.table.nodes[nodeid]?).map Node.path

theorem path_insert {m : Std.ExtTreeMap Nat Node} {nodeid other : Nat} {node node' : Node}
    (hn : m[nodeid]? = some node) (hp : node'.path = node.path) :
    ((m.insert nodeid node')[other]?).map Node.path = (m[other]?).map Node.path := by
  rw [get_insert]
  split
  · next heq =>
    rw [← heq, hn, Option.map_some, Option.map_some, hp]
  · rfl

theorem stays_of_table (h : b'.table = b.table) : Stays b b' := by
  intro nodeid
  rw [h]

theorem rebinding_stays : Rebinding (Stays (S := S)) where
  refl _ := stays_of_table rfl
  trans _ _ _ h h' nodeid := (h' nodeid).trans (h nodeid)
  called _ _ _ := stays_of_table rfl
  live _ _ := stays_of_table rfl
  clock _ := stays_of_table rfl
  bound b nodeid fid stat oldFid table _ hbn other := by
    obtain ⟨node, hn, rfl⟩ := NodeTable.replaceBinding_ok hbn
    exact path_insert hn rfl
  rebound b rebound stale _ := by
    refine List.foldlRecOn (motive := fun table => Stays b { b with table := table }) rebound _
      (List.foldlRecOn (motive := fun table => Stays b { b with table := table }) stale _
        (stays_of_table rfl) fun table h nodeid _ => ?_) fun table h binding _ => ?_
    · cases hn : table.nodes[nodeid]? with
      | none => exact h
      | some node =>
        have hp : node.markStale.path = node.path := rfl
        exact fun other => (path_insert hn hp).trans (h other)
    · obtain ⟨nodeid, fid, stat⟩ := binding
      dsimp only
      cases hn : table.nodes[nodeid]? with
      | none => exact h
      | some node =>
        have hp : ({ node.renew stat with fid := some fid } : Node).path = node.path := rfl
        exact fun other => (path_insert hn hp).trans (h other)
  connected _ _ := stays_of_table rfl

theorem Spared.stays {path : Path} (h : Spared l b.table path) (hst : Stays b b') :
    Spared l b'.table path := by
  intro nodeid node hn hbl
  have hp := hst nodeid
  rw [hn] at hp
  obtain ⟨before, hb, heq⟩ := Option.map_eq_some_iff.mp hp.symm
  exact h nodeid before hb (heq ▸ hbl)

theorem entered_removeChild {parent : Nat} {name : Bytes} (h : Matches l b.table)
    (hs : ∀ path, b.table.childPath parent name = .ok path → Spared l b.table path) :
    wp (removeChild parent name) (Entered l) b := by
  have hq : Handling (Respects (S := S)) := handling_respects
  have hst : Rebinding (Stays (S := S)) := rebinding_stays
  refine wp_ask_bind (fun e _ => h) fun path hp => ?_
  have hw {R : Bridge S → Bridge S → Prop} (hR : Rebinding R) :
      Steps R (withRecovery isNamespaceShapeError (recoverNamespaceShape parent)
        (walkChildForMutation parent name) : Op S Fid) :=
    hR.steps_withRecovery (hR.steps_recoverNamespaceShape parent)
      (hR.bind (hR.steps_boundNodeFid parent) fun _ => hR.steps_walkOne _ _)
  have hrm (fid : Fid) : Steps (fun b b' => Respects b b' ∧ Stays b b')
      (remove fid : Op S Unit) := fun b =>
    ⟨hq.steps_remove (fun _ _ => respects_of_table rfl) fid b,
      hst.steps_remove (fun _ _ => stays_of_table rfl) fid b⟩
  have hb : Steps (fun b b' => Respects b b' ∧ Stays b b') (withRecovery isNamespaceShapeError
      (recoverNamespaceShape parent) (walkChildForMutation parent name) : Op S Fid) :=
    fun b => ⟨hw hq.toRebinding b, hw hst b⟩
  refine hb.wp_bind (fun e b₁ h₁ => h₁.1 l h) fun fid b₁ h₁ => ?_
  refine (hrm fid).wp_bind (fun e b₂ h₂ => h₂.1 l (h₁.1 l h)) fun _ b₂ h₂ => ?_
  have hr := (h₂.1 l (h₁.1 l h)).removePathSubtree (((hs path hp).stays h₁.2).stays h₂.2)
  refine (hq.steps_releaseAll _).wp_bind (fun e b₃ h₃ => h₃ l hr) fun _ b₃ h₃ => ?_
  exact (h₃ l hr).entered ⟨rfl, rfl⟩

/-! ### Renamings -/

theorem Matches.replaceFirstQid (h : Matches l t) (qid : Qid) (fid : Fid) (stat : Stat)
    (path : Option Path) : Matches l (t.replaceFirstQid qid fid stat path).2 := by
  unfold NodeTable.replaceFirstQid
  split
  · next nodeid node hf =>
    exact h.update (NodeTable.getElem?_of_find? hf).1
      (.of_renew rfl rfl (min_lookups_le node) rfl)
  · exact h

/-- A renaming keeps up the ledger where it does not drop nodes that the kernel counts. -/
theorem Matches.renamed {plan : RenamePlan} {told : Tidings} (h : Matches l t)
    (hs : told.replaced.any isDir = true → Spared l t plan.newPath) :
    Matches l (plan.renamed told t) := by
  have hk : Matches l (plan.kept told t) := by
    unfold RenamePlan.kept
    split
    · next hd => exact h.removePathSubtree (hs hd)
    · exact h
  have hm : Matches l (plan.moved told t) := by
    unfold RenamePlan.moved NodeTable.movePathPrefix
    split
    · exact hk
    · exact hk.mapped fun _ _ => .of_same rfl rfl rfl rfl
  have hsr : Matches l (plan.sourced told t).2 := hm.replaceFirstQid _ _ _ _
  have ho : Matches l (plan.overwritten told t) := by
    unfold RenamePlan.overwritten
    split
    · exact hsr.replaceFirstQid _ _ _ _
    · exact hsr
  unfold RenamePlan.renamed
  split
  · exact ho
  · refine ho.mapped fun _ node => ?_
    split
    · exact .of_renew rfl rfl (min_lookups_le node) rfl
    · exact .refl node

theorem mute_renamePrepared (plan : RenamePlan) (oldName newName : Bytes) :
    Mute (renamePrepared plan oldName newName : Op S Reply) :=
  mute_bind fun _ => mute_bind fun _ => mute_bind fun _ => mute_bind fun _ => mute_bind fun _ =>
    mute_bind fun _ => mute_bind fun _ => mute_pure ⟨rfl, rfl⟩

variable {b : Bridge .scripted}

theorem entered_renamePrepared {plan : RenamePlan}
    (h : Matches l b.table) (hs : plan.replaced.any isDir = true → Spared l b.table plan.newPath) :
    wp (renamePrepared plan oldName newName) (Entered l) b := by
  have hr : wp (renamePrepared plan oldName newName) _ b := wp_renamePrepared
  unfold wp at hr ⊢
  rcases he : (renamePrepared plan oldName newName).exec b with ⟨r, b₁⟩
  rw [he] at hr
  cases r with
  | error e =>
    show Matches l b₁.table
    rw [show b₁.table = b.table from hr.2 rfl]
    exact h
  | ok reply =>
    obtain ⟨told, ⟨b₂, _, _, _, _, _, hrm, _⟩, ht⟩ := hr.1 rfl
    have hd := (asks_renameRemote.of_exec hrm).2 told.replaced rfl
    refine .entered ?_ (mute_renamePrepared plan _ _ b reply b₁ he)
    show Matches l b₁.table
    rw [show b₁.table = plan.renamed told b.table from ht]
    exact h.renamed fun hdir => hs (hd hdir)

theorem entered_rename {oldParent newParent : Nat}
    (h : Matches l b.table)
    (hs : ∀ plan b₁, (planRename oldParent newParent oldName newName).exec b = (.ok plan, b₁) →
      plan.replaced.any isDir = true → Spared l b₁.table plan.newPath) :
    wp (rename oldParent newParent oldName newName) (Entered l) b := by
  have hp := handling_respects.steps_planRename oldParent newParent oldName newName b l h
  rw [rename, wp_bind]
  unfold wp
  rcases he : (planRename oldParent newParent oldName newName).exec b with ⟨r, b₁⟩
  rw [he] at hp
  cases r with
  | error e => exact hp
  | ok plan => exact entered_renamePrepared hp (hs plan b₁ he)

/-! ### Attributes -/

/-- The answers that are still to come. -/
def Bridge.script (b : Bridge .scripted) : List Answer := b.server

/-- The server tells one inode in all its stats, and it is the one of the node where the node is
bound or trusted to be. -/
structure Steady (ι : UInt64 × Kind) (nodeid : Nat) (trusted : Bool) (b : Bridge .scripted) :
    Prop where
  coming : ∀ stat, Answer.stat stat ∈ b.script → inodeIdentity stat = ι
  told : ∀ stat, b.Answered stat → inodeIdentity stat = ι
  known : ∀ (node : Node), b.table.nodes[nodeid]? = some node →
    trusted = true ∨ node.fid.isSome = true ∧ node.needsRebind = false → node.identity = ι

section Steady

variable {ι : UInt64 × Kind} {nodeid : Nat} {trusted : Bool} {b : Bridge .scripted}

/-- A node is given a stat of the inode, or loses its binding. -/
theorem Steady.update {other : Nat} {node node' : Node} (h : Steady ι nodeid trusted b)
    (hn : b.table.nodes[other]? = some node)
    (hi : node'.identity = ι ∨ node'.identity = node.identity ∧ node'.fid = none) :
    Steady ι nodeid trusted
      { b with table := { b.table with nodes := b.table.nodes.insert other node' } } where
  coming := h.coming
  told := h.told
  known found hf hbn := by
    rw [get_insert] at hf
    split at hf
    · next heq =>
      cases hf
      rcases hi with hi | ⟨hs, hfd⟩
      · exact hi
      · rw [hs]
        refine h.known node (heq ▸ hn) (hbn.imp_right fun hb => ?_)
        rw [hfd] at hb
        cases hb.1
    · exact h.known found hf hbn

theorem Steady.called (h : Steady ι nodeid trusted b) (c : Call) :
    Steady ι nodeid trusted (b.called c) where
  coming stat hs := h.coming stat (List.mem_of_mem_tail hs)
  told stat hs := by
    obtain ⟨sent, hsn, ha⟩ := hs
    rcases List.mem_append.mp hsn with hsn | hsn
    · exact h.told stat ⟨sent, hsn, ha⟩
    · rw [List.mem_singleton.mp hsn] at ha
      refine h.coming stat ?_
      change b.script.headD _ = _ at ha
      cases hsc : b.script with
      | nil =>
        rw [hsc] at ha
        cases ha
      | cons answer rest =>
        rw [hsc] at ha
        rw [show answer = .stat stat by exact ha]
        exact List.mem_cons_self
  known := h.known

/-- A condition that holds before holds after. -/
def Keeps (I : Bridge S → Prop) (b b' : Bridge S) : Prop := I b → I b'

/-- The ledger is matched while the inode of a node stays. -/
def Watched (l : Ledger) (ι : UInt64 × Kind) (nodeid : Nat) (trusted : Bool)
    (b : Bridge .scripted) : Prop := Matches l b.table ∧ Steady ι nodeid trusted b

theorem rebinding_watched : Rebinding (Keeps (Watched l ι nodeid trusted)) where
  refl _ h := h
  trans _ _ _ h h' hb := h' (h hb)
  called b c _ h := ⟨h.1, h.2.called c⟩
  live _ _ h := ⟨h.1, ⟨h.2.coming, h.2.told, h.2.known⟩⟩
  clock _ h := ⟨h.1, ⟨h.2.coming, h.2.told, h.2.known⟩⟩
  bound b other fid stat oldFid table hs hbn h := by
    refine ⟨h.1.replaceBinding hbn, ?_⟩
    obtain ⟨node, hn, rfl⟩ := NodeTable.replaceBinding_ok hbn
    exact h.2.update hn (.inl (h.2.told stat hs))
  rebound b rebound stale htl h := by
    refine ⟨h.1.applyRebindResults, ?_⟩
    refine List.foldlRecOn (motive := fun table => Steady ι nodeid trusted { b with table := table
      })
      rebound _ (List.foldlRecOn (motive := fun table => Steady ι nodeid trusted
        { b with table := table }) stale _ h.2 fun table h other _ => ?_) fun table h binding hb =>
          ?_
    · cases hn : table.nodes[other]? with
      | none => exact h
      | some node => exact h.update hn (.inr ⟨rfl, rfl⟩)
    · obtain ⟨other, fid, stat⟩ := binding
      dsimp only
      cases hn : table.nodes[other]? with
      | none => exact h
      | some node => exact h.update hn (.inl (h.told stat (htl _ hb)))
  connected _ _ h := ⟨h.1, ⟨h.2.coming, h.2.told, h.2.known⟩⟩

/-- A node whose inode is known is given a new stat. -/
theorem Watched.updateStat {stat : Stat} {table : NodeTable} (h : Watched l ι nodeid trusted b)
    (hs : inodeIdentity stat = ι)
    (hkn : ∀ (node : Node), b.table.nodes[nodeid]? = some node → node.identity = ι)
    (hu : b.table.updateStat nodeid stat = .ok table) :
    Watched l ι nodeid trusted { b with table := table } := by
  refine ⟨h.1.nodeMut hu fun node hn => ?_, ?_⟩
  · exact .of_observe rfl rfl rfl rfl (hs.trans (hkn node hn).symm)
  · obtain ⟨node, hn, hu⟩ := bind_ok.mp hu
    cases hu
    exact h.2.update (NodeTable.getElem?_of_node hn) (.inl hs)

end Steady

/-- A node is bound. -/
def NodeTable.Bound (t : NodeTable) (nodeid : Nat) : Prop :=
  ∃ node, t.nodes[nodeid]? = some node ∧ node.fid.isSome = true ∧ node.needsRebind = false

theorem yields_node (nodeid : Nat) : Yields (fun node b => b.table.nodes[nodeid]? = some node)
    (view (·.node nodeid) : Op S Node) := by
  intro b node b' h
  obtain ⟨hn, rfl⟩ := Prod.mk.inj h
  exact NodeTable.getElem?_of_node hn

theorem yields_replaceBinding (nodeid : Nat) (fid : Fid) (stat : Stat) :
    Yields (fun _ b => b.table.Bound nodeid)
      (alter (·.replaceBinding nodeid fid stat) : Op S (Option Fid)) := by
  intro b oldFid b' h
  cases hbn : b.table.replaceBinding nodeid fid stat with
  | error e =>
    rw [exec_alter_error hbn] at h
    cases h
  | ok bound =>
    obtain ⟨_, table⟩ := bound
    rw [exec_alter_ok hbn] at h
    cases h
    obtain ⟨node, _, rfl⟩ := NodeTable.replaceBinding_ok hbn
    exact ⟨_, Std.ExtTreeMap.getElem?_insert_self, rfl, rfl⟩

/-- A node that a fid was asked for is bound. -/
theorem yields_boundNodeFid (nodeid : Nat) :
    Yields (fun _ b => b.table.Bound nodeid) (boundNodeFid nodeid : Op S Fid) := by
  refine (yields_node nodeid).bind fun node b fid b' hn h => ?_
  have hr : Yields (fun _ b => b.table.Bound nodeid) (do
      let fid ← walkFromSource node.path
      let stat ← Fuse.stat fid
      let oldFid ← alter (·.replaceBinding nodeid fid stat)
      releaseAll oldFid.toList
      pure fid : Op S Fid) := by
    refine yields_bind fun fid => yields_bind fun stat => ?_
    refine (yields_replaceBinding nodeid fid stat).bind fun oldFid b₁ _ b₂ hbn he => ?_
    have ht := (quiet_table.bind (quiet_table.steps_releaseAll oldFid.toList)
      fun _ => quiet_table.steps_pure fid) b₁
    rw [he] at ht
    rw [show b₂.table = b₁.table by exact ht]
    exact hbn
  cases hfd : node.fid with
  | none =>
    rw [hfd] at h
    exact hr b fid b' h
  | some found =>
    cases hnd : node.needsRebind with
    | true =>
      rw [hfd, hnd] at h
      exact hr b fid b' h
    | false =>
      rw [hfd, hnd] at h
      cases h
      exact ⟨node, hn, by rw [hfd]; rfl, hnd⟩

theorem updateStat_of_map {nodeid : Nat} {stat : Stat} {u : Unit}
    (h : (t.updateStat nodeid stat).map (((), ·)) = .ok (u, t')) :
    t.updateStat nodeid stat = .ok t' := by
  cases hu : t.updateStat nodeid stat with
  | error e =>
    rw [hu] at h
    cases h
  | ok table =>
    rw [hu] at h
    cases h
    rfl

section Attributes

variable {ι : UInt64 × Kind} {nodeid : Nat} {trusted : Bool} {b : Bridge .scripted}
  {R : Bridge S → Bridge S → Prop}

theorem Watched.of_bound (h : Watched l ι nodeid trusted b)
    (hbn : trusted = true ∨ b.table.Bound nodeid) (node : Node)
    (hn : b.table.nodes[nodeid]? = some node) : node.identity = ι := by
  refine h.2.known node hn (hbn.imp_right fun ⟨found, hf, hfd, hnd⟩ => ?_)
  cases hn.symm.trans hf
  exact ⟨hfd, hnd⟩

theorem watched_getattrOnce :
    Steps (Keeps (Watched l ι nodeid trusted)) (getattrOnce nodeid : Op .scripted Reply) := by
  have hk : Rebinding (Keeps (Watched l ι nodeid trusted)) := rebinding_watched
  have : IsTrans _ (Keeps (Watched l ι nodeid trusted)) := ⟨hk.trans⟩
  refine hk.bind (hk.steps_cachedNodeStatIfFresh nodeid) fun cached => ?_
  cases cached with
  | some stat => exact hk.steps_pure _
  | none =>
    refine (yields_boundNodeFid nodeid).steps_bind (hk.steps_boundNodeFid nodeid)
      fun fid b hbn h => ?_
    have hs : Steps (fun b b' => Keeps (Watched l ι nodeid trusted) b b' ∧ b'.table = b.table)
        (Fuse.stat fid : Op .scripted Stat) :=
      fun b => ⟨hk.steps_stat fid b, quiet_table.steps_stat fid b⟩
    refine ((yields_stat fid).wp hs).bind (fun stat b₁ ⟨⟨h₁, ht⟩, htl⟩ => ?_)
      fun e b₁ ⟨⟨h₁, _⟩, _⟩ => h₁ h
    refine wp_alter_bind (fun e _ => h₁ h) fun _ table hu => ?_
    rw [← ht] at hbn
    exact (h₁ h).updateStat ((h₁ h).2.told stat (htl stat rfl)) ((h₁ h).of_bound (.inr hbn))
      (updateStat_of_map hu)

theorem watched_getattr :
    Steps (Keeps (Watched l ι nodeid trusted)) (getattr nodeid : Op .scripted Reply) :=
  rebinding_watched.steps_withRecovery (rebinding_watched.steps_recoverNamespaceShape nodeid)
    watched_getattrOnce

theorem steps_setSize (h : Quiet R) (client : Nat) (fid : Fid)
    (size : UInt64) : Steps R (setSize client fid size : Op S Unit) := by
  have hf : Steps R (truncateFallback client fid : Op S Unit) := by
    refine h.bind (h.steps_cloneFidOn client fid) fun clone => ?_
    refine h.bind_attempt (h.steps_openFid clone _) (fun _ => h.steps_clunk clone) fun _ => ?_
    exact h.bind_attempt (h.steps_openFid clone _) (fun _ => h.steps_clunk clone)
      fun e => h.steps_release_throw clone e
  exact h.bind_attempt (h.steps_performOn client rfl _) (fun _ => h.steps_pure ())
    fun e => hf.ite (h.steps_throw e)

theorem steps_resize (h : Quiet R) (nodeid client : Nat) (fid : Fid) (size : Option UInt64)
    (ignored : Bool) :
    Steps R (resize nodeid client fid size ignored : Op S Stat) := by
  refine (h.bind (h.steps_view _) fun _ => h.steps_pure _).ite ?_
  cases size with
  | none => exact h.steps_statOn client fid
  | some size => exact h.bind (steps_setSize h client fid size) fun _ => h.steps_statOn client fid

theorem yields_statOn (client : Nat) (fid : Fid) :
    Yields (fun stat b => b.Answered stat) (statOn client fid : Op S Stat) := by
  have hc : Yields Told (callOn client (.stat fid) : Op S Answer) :=
    yields_bind fun _ => (yields_call _).ite (yields_pure fun _ _ h => nomatch h)
  exact hc.bind fun _ _ _ _ htl he => answered_of_exec he htl

/-- The stat behind a change of size is what the server has told, or the one that the node has. -/
theorem yields_resize (nodeid client : Nat) (fid : Fid) (size : Option UInt64) (ignored : Bool) :
    Yields (fun stat b => b.Answered stat ∨ ∃ node, b.table.nodes[nodeid]? = some node ∧
      stat = node.stat) (resize nodeid client fid size ignored : Op S Stat) := by
  have hs : Yields (fun stat b => b.Answered stat ∨ ∃ node, b.table.nodes[nodeid]? = some node ∧
      stat = node.stat) (statOn client fid : Op S Stat) :=
    fun b stat b' h => .inl (yields_statOn client fid b stat b' h)
  refine Yields.ite ?_ ?_
  · refine (yields_node nodeid).bind fun node b stat b' hn h => ?_
    cases h
    exact .inr ⟨node, hn, rfl⟩
  · cases size with
    | none => exact hs
    | some size => exact yields_bind fun _ => hs

/-- The fid that attributes are set through is the one of a handle, or the node is bound. -/
theorem yields_setattrFid (nodeid : Nat) (fh : Option Nat) :
    Yields (fun _ b => fh.isSome = true ∨ b.table.Bound nodeid)
      (setattrFid nodeid fh : Op S (Nat × Fid)) := by
  cases fh with
  | some fh => exact yields_bind fun _ => yields_bind fun _ => yields_pure fun _ => .inl rfl
  | none =>
    refine (yields_boundNodeFid nodeid).bind fun fid b found b' hbn h => .inr ?_
    cases h
    exact hbn

theorem watched_setattrOnce (size : Option UInt64) (fh : Option Nat) :
    Steps (Keeps (Watched l ι nodeid fh.isSome))
      (setattrOnce nodeid size fh : Op .scripted Reply) := by
  have hk : Rebinding (Keeps (Watched l ι nodeid fh.isSome)) := rebinding_watched
  have : IsTrans _ (Keeps (Watched l ι nodeid fh.isSome)) := ⟨hk.trans⟩
  refine hk.bind ((hk.bind (hk.steps_view _) fun _ => hk.steps_pure _).ite
    (hk.steps_pure _)) fun ignored => ?_
  have hfd : Steps (Keeps (Watched l ι nodeid fh.isSome))
      (setattrFid nodeid fh : Op .scripted (Nat × Fid)) := by
    cases fh with
    | some fh =>
      exact hk.bind (hk.steps_view _) fun _ => hk.bind (hk.steps_ask _) fun _ =>
        hk.steps_pure _
    | none =>
      exact hk.bind (hk.steps_boundNodeFid _) fun _ => hk.bind (hk.steps_ask _)
        fun _ => hk.steps_pure _
  refine (yields_setattrFid nodeid fh).steps_bind hfd fun found b hbn h => ?_
  have hsz : Steps (fun b b' => Keeps (Watched l ι nodeid fh.isSome) b b' ∧ b'.table = b.table)
      (resize nodeid found.1 found.2 size ignored : Op .scripted Stat) :=
    fun b => ⟨steps_resize hk.toQuiet _ _ _ _ _ b, steps_resize quiet_table _ _ _ _ _ b⟩
  refine ((yields_resize nodeid found.1 found.2 size ignored).wp hsz).bind
    (fun stat b₁ ⟨⟨h₁, ht⟩, htl⟩ => ?_) fun e b₁ ⟨⟨h₁, _⟩, _⟩ => h₁ h
  rw [← ht] at hbn
  have hkn := (h₁ h).of_bound hbn
  have hs : inodeIdentity stat = ι := by
    rcases htl stat rfl with htl | ⟨node, hn, rfl⟩
    · exact (h₁ h).2.told stat htl
    · exact hkn node hn
  have hu : wp (alter (fun table => (table.updateStat nodeid stat).map (((), ·))) :
      Op .scripted Unit) (fun _ b' => Watched l ι nodeid fh.isSome b') b₁ := by
    unfold wp
    cases hf : (b₁.table.updateStat nodeid stat).map (((), ·)) with
    | error e =>
      rw [exec_alter_error hf]
      exact h₁ h
    | ok updated =>
      obtain ⟨u, table⟩ := updated
      rw [exec_alter_ok hf]
      exact (h₁ h).updateStat hs hkn (updateStat_of_map hf)
  exact hu.bind_attempt (fun _ _ h₂ => h₂) fun _ _ h₂ => h₂

theorem watched_setattr (size : Option UInt64) (fh : Option Nat) :
    Steps (Keeps (Watched l ι nodeid fh.isSome)) (setattr nodeid size fh : Op .scripted Reply) := by
  have hk : Rebinding (Keeps (Watched l ι nodeid fh.isSome)) := rebinding_watched
  refine hk.bind_attempt (watched_setattrOnce size fh) (fun _ => hk.steps_pure _)
    fun e => Steps.ite ?_ (hk.steps_throw e)
  exact hk.bind (hk.steps_recoverNamespaceShape _) fun _ =>
    (hk.steps_throw _).ite (watched_setattrOnce size fh)

/-- Attributes of a node whose inode stays are entered. -/
theorem entered_of_watched {x : Op .scripted Reply}
    (hx : Steps (Keeps (Watched l ι nodeid trusted)) x) (hm : Mute x) (h : Matches l b.table)
    (hs : Steady ι nodeid trusted b) : wp x (Entered l) b := by
  refine (hm.wp hx).mono fun r b₁ ⟨hw, hsl⟩ => ?_
  have h₁ := (hw ⟨h, hs⟩).1
  cases r with
  | error e => exact h₁
  | ok reply => exact h₁.entered (hsl reply rfl)

end Attributes

/-! ### Sequences of requests -/

/-- A mount with what its kernel has been told. -/
structure Mount where
  bridge : Bridge .scripted
  ledger : Ledger

/-- A request, with what the server answers to it and what the clock says meanwhile. -/
structure Event where
  request : Request
  script : List Answer
  clock : List Bool

/-- The mount when a request comes. -/
def Mount.ready (self : Mount) (event : Event) : Bridge .scripted :=
  { self.bridge with server := event.script, clock := event.clock, sent := [] }

/-- What the kernel forgets with a request. -/
def Ledger.forgetting (l : Ledger) : Request → Ledger
  | .forget counts => l.forgetAll counts
  | _ => l

/-- The mount when a request has been answered. -/
def Mount.next (self : Mount) (event : Event) : Mount where
  bridge := (serve event.request (self.ready event)).2
  ledger := (self.ledger.forgetting event.request).reply (serve event.request (self.ready event)).1

/-- A mount starts with its root, and all that comes are requests. -/
def mounts : System Mount Event where
  initial s := (∃ fid stat, s.bridge.table = .new fid stat) ∧ s.ledger = ⟨fun _ => 0, fun _ => 0,
    []⟩
  step s event s' := s' = s.next event

/-- The requests that do no harm. What is removed, or replaced as a directory, is not counted by the
kernel; and while attributes are asked for or set, the inode of the node stays. -/
def Considerate (s : Mount) (event : Event) : Prop :=
  match event.request with
  | .getattr nodeid => ∃ ι, Steady ι nodeid false (s.ready event)
  | .setattr nodeid _ fh => ∃ ι, Steady ι nodeid fh.isSome (s.ready event)
  | .unlink parent name => ∀ path, s.bridge.table.childPath parent name = .ok path →
      Spared s.ledger s.bridge.table path
  | .rmdir parent name => ∀ path, s.bridge.table.childPath parent name = .ok path →
      Spared s.ledger s.bridge.table path
  | .rename oldParent newParent oldName newName => ∀ plan b,
      (planRename oldParent newParent oldName newName).exec (s.ready event) = (.ok plan, b) →
      plan.replaced.any isDir = true → Spared s.ledger b.table plan.newPath
  | _ => True

variable {s : Mount}

theorem entered_dispatch {event : Event} (h : Matches s.ledger s.bridge.table)
    (hc : Considerate s event) :
    wp (dispatch event.request) (Entered (s.ledger.forgetting event.request)) (s.ready event) := by
  obtain ⟨request, script, clock⟩ := event
  have hq : Handling (Respects (S := .scripted)) := handling_respects
  cases request with
  | lookup parent name => exact entered_lookup parent name h
  | forget counts => exact entered_forget counts h
  | getattr nodeid =>
    obtain ⟨ι, hs⟩ := hc
    exact entered_of_watched watched_getattr (mute_getattr nodeid) h hs
  | setattr nodeid size fh =>
    obtain ⟨ι, hs⟩ := hc
    exact entered_of_watched (watched_setattr size fh) (mute_setattr nodeid size fh) h hs
  | readlink nodeid => exact entered_of_steps (hq.steps_readlink _) (mute_readlink _) h
  | «open» nodeid mode | opendir nodeid =>
    exact entered_of_steps (hq.steps_openNode _ _ _) (mute_openNode _ _ _) h
  | read nodeid fh offset size =>
    exact entered_of_steps (hq.steps_read _ _ _ _) (mute_read _ _ _ _) h
  | write nodeid fh offset data =>
    exact entered_of_steps (hq.steps_write _ _ _ _) (mute_write _ _ _ _) h
  | flush nodeid fh => exact entered_of_steps (hq.steps_flush _ _) (mute_flush _ _) h
  | release nodeid fh =>
    exact entered_of_steps (hq.steps_releaseHandle _ _) (mute_releaseHandle _ _) h
  | readdir nodeid fh offset size reads =>
    exact entered_of_steps (hq.steps_readdir _ _ _ _ _) (mute_readdir _ _ _ _ _) h
  | readdirplus nodeid fh offset size reads => exact entered_readdirplus _ _ _ _ _ h
  | create parent name perm mode => exact entered_createFile _ _ _ _ h
  | mkdir parent name mode | mknod parent name mode => exact entered_makeNode _ _ _ h
  | unlink parent name | rmdir parent name => exact entered_removeChild h hc
  | rename oldParent newParent oldName newName => exact entered_rename h hc
  | changed change =>
    exact entered_of_steps (hq.steps_applyNamespaceChange _) (mute_applyNamespaceChange _) h

/-- A request keeps the ledger matched. -/
theorem matches_next {event : Event} (h : Matches s.ledger s.bridge.table)
    (hc : Considerate s event) :
    Matches (s.next event).ledger (s.next event).bridge.table := by
  have hen := entered_dispatch h hc
  unfold Mount.next serve
  unfold wp at hen
  rcases he : (dispatch event.request).exec (s.ready event) with ⟨r, b'⟩
  rw [he] at hen
  cases r with
  | ok reply => exact hen
  | error e => exact Matches.entered hen ⟨rfl, rfl⟩

theorem matches_new (fid : Fid) (stat : Stat) :
    Matches ⟨fun _ => 0, fun _ => 0, []⟩ (.new fid stat) := by
  have hn : ∀ (nodeid : Nat) (node : Node), (NodeTable.new fid stat).nodes[nodeid]? = some node →
      nodeid = ROOT_NODEID ∧ node = .fresh (some fid) [] stat := by
    intro nodeid node hn
    rw [NodeTable.new, get_insert] at hn
    split at hn
    · next heq =>
      cases hn
      exact ⟨heq.symm, rfl⟩
    · cases hn
  refine ⟨fun nodeid node h => ?_, fun nodeid node h => ?_, fun _ _ _ => Nat.zero_le _, nofun,
    nofun⟩
  · rw [(hn nodeid node h).1]
    exact .inl (Nat.lt_succ_self _)
  · rw [(hn nodeid node h).2]
    rfl

theorem matches_run {history : List Event}
    (run : (mounts.restrict Considerate).Run history s) : Matches s.ledger s.bridge.table := by
  refine run.invariant (I := fun _ s => Matches s.ledger s.bridge.table) (fun s h => ?_)
    fun _ s event s' _ h hs => ?_
  · obtain ⟨⟨fid, stat, ht⟩, hl⟩ := h
    rw [ht, hl]
    exact matches_new fid stat
  · obtain ⟨hc, rfl⟩ := hs
    exact matches_next h hc

/-- In every run of requests that do no harm, a node is there as long as the kernel has been told
more entries of it than it has forgotten, and no generation of a node is reported for two inodes. -/
theorem inode_lives_while_counted {history : List Event} {s : Mount}
    (run : (mounts.restrict Considerate).Run history s) :
    (∀ nodeid < U64_MAX, s.ledger.entries nodeid ≤ U64_MAX →
      s.ledger.forgotten nodeid < s.ledger.entries nodeid →
      ∃ node, s.bridge.table.nodes[nodeid]? = some node) ∧
    ∀ r ∈ s.ledger.reports, ∀ r' ∈ s.ledger.reports, r.nodeid = r'.nodeid →
      r.generation = r'.generation → r.nodeid < U64_MAX → r.generation < U64_MAX →
      r.identity = r'.identity := by
  have hm := matches_run run
  refine ⟨fun nodeid hid he hc => ?_, hm.single⟩
  cases hn : s.bridge.table.nodes[nodeid]? with
  | some node => exact ⟨node, rfl⟩
  | none =>
    have hl := hm.counted nodeid hid he
    rw [lookups_of_none hn] at hl
    omega

/-- A mount of which only the root is known. -/
def freshMount : Mount where
  bridge := .mounted (.new ROOT_FID (fileStat "/" 1)) [ROOT_FID] ([] : List Answer)
  ledger := ⟨fun _ => 0, fun _ => 0, []⟩

theorem freshMount_initial : mounts.initial freshMount := ⟨⟨_, _, rfl⟩, rfl⟩

/-- The file a is looked up, and its qid has a number. -/
def looksUp (number : UInt64) : Event where
  request := .lookup ROOT_NODEID (utf8 "a")
  script := [.walked 5, .stat (fileStat "a" number), .done, .done]
  clock := []

/-- The kernel forgets one entry of the file. -/
def forgets : Event where
  request := .forget [(2, 1)]
  script := []
  clock := []

/-- The file is looked up, looked up again as another inode, and forgotten once. -/
def lookedUpTwice : Mount := ((freshMount.next (looksUp 7)).next (looksUp 8)).next forgets

theorem inode_lives_while_counted_lookups :
    (mounts.restrict Considerate).Run [forgets, looksUp 8, looksUp 7] lookedUpTwice ∧
      lookedUpTwice.ledger.entries 2 = 2 ∧ lookedUpTwice.ledger.forgotten 2 = 1 ∧
      (∃ node, lookedUpTwice.bridge.table.nodes[2]? = some node) ∧
      lookedUpTwice.ledger.reports.map (fun r => (r.nodeid, r.generation)) = [(2, 2), (2, 1)] ∧
      ∀ r ∈ lookedUpTwice.ledger.reports, ∀ r' ∈ lookedUpTwice.ledger.reports,
        r.nodeid = r'.nodeid → r.generation = r'.generation → r.nodeid < U64_MAX →
          r.generation < U64_MAX → r.identity = r'.identity := by
  have hr : (mounts.restrict Considerate).Run [forgets, looksUp 8, looksUp 7] lookedUpTwice :=
    .next (.next (.next (.start freshMount_initial) ⟨trivial, rfl⟩) ⟨trivial, rfl⟩) ⟨trivial, rfl⟩
  have he : lookedUpTwice.ledger.entries 2 = 2 := by decide +kernel
  have hf : lookedUpTwice.ledger.forgotten 2 = 1 := by decide +kernel
  obtain ⟨hn, hone⟩ := inode_lives_while_counted hr
  refine ⟨hr, he, hf, hn 2 (by decide) ?_ ?_, by decide +kernel, hone⟩
  · rw [he]
    decide
  · rw [he, hf]
    decide

/-- The file a is removed. -/
def unlinks : Event where
  request := .unlink ROOT_NODEID (utf8 "a")
  script := [.walked 6, .done]
  clock := []

/-- The file a is created, with a fid that its node keeps. -/
def creates : Event where
  request := .create ROOT_NODEID (utf8 "a") 0o644 Mode.OREAD
  script := [.walked 2, .created 3 ⟨0, 0, 7⟩, .walked 4, .stat (fileStat "a" 7)]
  clock := []

/-- The attributes of the node are asked for, and the fid shows another inode. -/
def asks : Event where
  request := .getattr 2
  script := [.stat (fileStat "a" 8)]
  clock := []

/-- A removal takes a node away that the kernel counts, and the attributes of a node give its
generation another inode. -/
theorem inode_lost_while_counted :
    (∃ s, mounts.Run [unlinks, looksUp 7] s ∧ s.ledger.forgotten 2 < s.ledger.entries 2 ∧
      s.bridge.table.nodes[2]? = none) ∧
    ∃ s, mounts.Run [looksUp 8, asks, creates] s ∧ ∃ r ∈ s.ledger.reports, ∃ r' ∈ s.ledger.reports,
      r.nodeid = r'.nodeid ∧ r.generation = r'.generation ∧ r.identity ≠ r'.identity := by
  constructor
  · refine ⟨_, .next (.next (.start freshMount_initial) rfl) rfl, by decide +kernel, ?_⟩
    exact Option.isNone_iff_eq_none.mp (by decide +kernel)
  · have hr : (((freshMount.next creates).next asks).next (looksUp 8)).ledger.reports =
        [⟨2, 1, inodeIdentity (fileStat "a" 8)⟩, ⟨2, 1, inodeIdentity (fileStat "a" 7)⟩] := by
      decide +kernel
    refine ⟨_, .next (.next (.next (.start freshMount_initial) rfl) rfl) rfl, ?_⟩
    exact ⟨_, .head _, _, .tail _ (.head _), rfl, rfl, by decide +kernel⟩

end R9P.Fuse
