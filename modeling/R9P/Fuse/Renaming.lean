import R9P.Fuse.Effects

/-!
# What a renaming moves

Library `Fuse`. Behind a renaming the bridge moves the nodes at and below the old path, and then
looks for the nodes of the renamed and of the replaced file by their qids, in the whole table. What
becomes of the table is a function of the table, the plan and what the server tells. Nothing else
is touched exactly if the searches find no other node.
-/

namespace R9P.Fuse
open Std Base Base.Checked Wire
open Option (map_map map_some map_eq_some_iff some_inj eq_none_or_eq_some)

variable {S : Service} {nodeid : Nat} {node : Node}

/-! ### Changes to a table -/

namespace NodeTable

variable {t : NodeTable} {qid : Qid} {fid : Fid} {stat : Stat} {old new path : Path}

theorem getElem?_of_find? {p : Nat × Node → Bool}
    (h : t.nodes.toList.find? p = some (nodeid, node)) :
    t.nodes[nodeid]? = some node ∧ p (nodeid, node) = true :=
  ⟨ExtTreeMap.mem_toList_iff_getElem?_eq_some.mp (List.mem_of_find?_eq_some h), List.find?_some h⟩

theorem getElem?_insert_of_ne {m : ExtTreeMap Nat Node} {a : Nat}
    (h : a ≠ nodeid) : (m.insert a node)[nodeid]? = m[nodeid]? := by
  rw [get_insert, if_neg h]

/-- The path and the fid of a node. -/
def seen (table : NodeTable) (nodeid : Nat) : Option (Path × Option Fid) :=
  (table.nodes[nodeid]?).map fun node => (node.path, node.fid)

/-- The node with a qid that a search finds first. -/
def first (table : NodeTable) (qid : Qid) : Option Nat :=
  (table.nodes.toList.find? fun entry => entry.2.qid = qid).map (·.1)

/-- A node of the table has the qid. -/
def Carries (table : NodeTable) (qid : Qid) (nodeid : Nat) : Prop :=
  (table.nodes[nodeid]?).map (·.qid) = some qid

instance (table : NodeTable) (qid : Qid) (nodeid : Nat) : Decidable (table.Carries qid nodeid) :=
  inferInstanceAs (Decidable (_ = _))

/-- No two nodes have one path. -/
def Unique (t : NodeTable) : Prop :=
  ∀ (i j : Nat) (n n' : Node), t.nodes[i]? = some n → t.nodes[j]? = some n' →
    n.path = n'.path → i = j

end NodeTable

/-! ### The table behind a renaming -/

/-- What a renaming is told: what it replaced, the fid and the stat of what was renamed, and the
fid that a walk to the new name then gives. -/
structure Tidings where
  replaced : Option Stat
  fid : Fid
  after : Stat
  replacement : Option Fid

namespace RenamePlan

variable (plan : RenamePlan) (told : Tidings) (t : NodeTable)

/-- The nodes that are kept: those of a replaced directory are dropped. -/
def kept : NodeTable :=
  if told.replaced.any isDir then (t.removePathSubtree plan.newPath).2 else t

def moved : NodeTable := (plan.kept told t).movePathPrefix plan.oldPath plan.newPath

/-- The first node with the qid of what was renamed takes its fid. -/
def sourced : Option Fid × NodeTable :=
  (plan.moved told t).replaceFirstQid plan.before.qid told.fid told.after (some plan.newPath)

/-- The qid of a replaced file and the fid that is to take its place. -/
def replacing : Option (Qid × Fid) :=
  if told.replaced.any isDir then none
  else told.replaced.bind fun stat => told.replacement.map fun fid => (stat.qid, fid)

/-- The first node with the qid of a replaced file takes the fid of the new name. -/
def overwritten : NodeTable :=
  match replacing told with
  | some (qid, fid) =>
    ((plan.sourced told t).2.replaceFirstQid qid fid told.after (some plan.newPath)).2
  | none => (plan.sourced told t).2

/-- Where no fid was given up, all nodes with the qid are refreshed. -/
def renamed : NodeTable :=
  if (plan.sourced told t).1.isSome then plan.overwritten told t
  else (plan.overwritten told t).refreshQid plan.before.qid told.after (some plan.newPath)

/-! ### What the searches find -/

/-- The node is the first one with the qid of what was renamed. -/
def IsSource (nodeid : Nat) : Prop := (plan.moved told t).first plan.before.qid = some nodeid

/-- The node is the first one with the qid of what was replaced, once the source has its own. -/
def IsTarget (nodeid : Nat) : Prop :=
  ∃ found ∈ replacing told, (plan.sourced told t).2.first found.1 = some nodeid

/-- The node is one of those that are refreshed where the source had no fid. -/
def IsRefreshed (nodeid : Nat) : Prop :=
  (plan.sourced told t).1 = none ∧ (plan.overwritten told t).Carries plan.before.qid nodeid

instance (nodeid : Nat) : Decidable (plan.IsSource told t nodeid) :=
  inferInstanceAs (Decidable (_ = _))

instance (nodeid : Nat) : Decidable (plan.IsTarget told t nodeid) := by
  unfold IsTarget
  infer_instance

instance (nodeid : Nat) : Decidable (plan.IsRefreshed told t nodeid) :=
  inferInstanceAs (Decidable (_ ∧ _))

/-- The node is given the new path by one of the searches. -/
def Rewrites (nodeid : Nat) : Prop :=
  plan.IsSource told t nodeid ∨ plan.IsTarget told t nodeid ∨ plan.IsRefreshed told t nodeid

instance (nodeid : Nat) : Decidable (plan.Rewrites told t nodeid) :=
  inferInstanceAs (Decidable (_ ∨ _))

variable {plan told t}

end RenamePlan

/-! ### One renaming -/

variable {plan : RenamePlan} {oldName newName : Bytes} {b b₁ b' : Bridge S}

/-- What the server tells in a renaming that starts here. -/
def Hears (plan : RenamePlan) (oldName newName : Bytes) (b : Bridge S) (told : Tidings) : Prop :=
  ∃ b₁ b₂ b₃ b₄ left rebound, (renameRemote plan oldName newName).exec b = (.ok told.replaced, b₁) ∧
    (statRenamedFid plan.newParentFid plan.fid newName).exec b₁ =
      (.ok (told.fid, told.after), b₂) ∧
    (dropReplaced plan told.replaced).exec b₂ = (.ok left, b₃) ∧
    (rebindSource plan told.fid told.after).exec
      { b₃ with table := b₃.table.movePathPrefix plan.oldPath plan.newPath } =
        (.ok rebound, b₄) ∧
    told.replacement = ((walkOne plan.newParentFid newName).exec b₄).1.toOption

/-- What is asked of the server leaves the table alone, and a directory is only replaced if it was
found at first. -/
def Asks (plan : RenamePlan) (b : Bridge S) (r : Except Error (Option Stat)) (b' : Bridge S) :
    Prop :=
  b'.table = b.table ∧ ∀ replaced, r = .ok replaced →
    replaced.any isDir = true → plan.replaced.any isDir = true

theorem Asks.same (h : b'.table = b.table) : Asks plan b (.ok plan.replaced) b' := by
  refine ⟨h, fun replaced hr hd => ?_⟩
  cases hr
  exact hd

theorem asks_throw (h : b₁.table = b.table) (fids : List Fid) (e : Error) :
    wp (do releaseAll fids; throw e) (Asks plan b) b₁ :=
  (quiet_table.steps_releaseAll fids).wp_bind (fun _ _ h₁ => ⟨h₁.trans h, nofun⟩)
    fun _ _ h₁ => ⟨h₁.trans h, nofun⟩

theorem asks_removeReplaced (h : b₁.table = b.table) :
    wp (removeReplaced plan newName) (Asks plan b) b₁ := by
  refine (quiet_table.steps_walkOne plan.oldParentFid newName).wp.bind_attempt
    (fun existing b₂ h₂ => ?_) fun _ b₂ h₂ => .same (h₂.trans h)
  refine (quiet_table.steps_statOr _ existing).wp_bind
    (fun _ _ h₃ => ⟨h₃.trans (h₂.trans h), nofun⟩) fun stat b₃ h₃ => ?_
  rw [wp_ite]
  refine ⟨fun _ => asks_throw (h₃.trans (h₂.trans h)) _ _, fun hd => ?_⟩
  refine (quiet_table.steps_remove (fun _ _ => rfl) existing).wp.bind_attempt
    (fun _ b₄ h₄ => ?_) fun _ b₄ h₄ => ?_
  all_goals
    refine ⟨h₄.trans (h₃.trans (h₂.trans h)), fun replaced hr hdr => ?_⟩
    cases hr
    exact absurd hdr hd

theorem asks_renameRemote : wp (renameRemote plan oldName newName) (Asks plan b) b := by
  have hone (b₁ : Bridge S) (h : b₁.table = b.table) (fid : Fid) (e : Error) :
      wp (do release fid; throw e) (Asks plan b) b₁ :=
    (quiet_table.steps_release fid).wp_bind (fun _ _ h₁ => ⟨h₁.trans h, nofun⟩)
      fun _ _ h₁ => ⟨h₁.trans h, nofun⟩
  unfold renameRemote
  rw [wp_ite]
  refine ⟨fun _ => (quiet_table.steps_perform rfl _).wp.bind_attempt (fun _ _ h₁ => .same h₁)
    fun e b₁ h₁ => hone b₁ h₁ plan.fid e, fun _ => ?_⟩
  refine (quiet_table.steps_renameFid plan.fid newName).wp.bind_attempt (fun _ _ h₁ => .same h₁)
    fun e b₁ h₁ => ?_
  dsimp only
  rw [wp_ite]
  refine ⟨fun _ => (asks_removeReplaced h₁).bind (fun replaced b₂ h₂ => ?_) fun _ _ h₂ =>
    ⟨h₂.1, nofun⟩, fun _ => hone b₁ h₁ plan.fid e⟩
  refine (quiet_table.steps_renameFid plan.fid newName).wp_bind
    (fun _ _ h₃ => ⟨h₃.trans h₂.1, nofun⟩) fun _ _ h₃ => ⟨h₃.trans h₂.1, ?_⟩
  intro replaced' hr hd
  cases hr
  exact h₂.2 replaced rfl hd

section

variable {told : Tidings} {t : NodeTable}

theorem exec_dropReplaced (plan : RenamePlan) (told : Tidings) (ht : b.table = t) : ∃ b',
    (dropReplaced plan told.replaced).exec b =
      (.ok (if told.replaced.any isDir then none else told.replaced), b') ∧
    b'.table = plan.kept told t := by
  unfold dropReplaced RenamePlan.kept
  by_cases hd : told.replaced.any isDir = true
  · rw [if_pos hd, if_pos hd, if_pos hd]
    have hc : (change (·.removePathSubtree plan.newPath)).exec b =
      (.ok (b.table.removePathSubtree plan.newPath).1,
        { b with table := (b.table.removePathSubtree plan.newPath).2 }) := rfl
    obtain ⟨_, b', hr⟩ := total_releaseAll (b.table.removePathSubtree plan.newPath).1
      { b with table := (b.table.removePathSubtree plan.newPath).2 }
    have htb := quiet_table.steps_releaseAll (b.table.removePathSubtree plan.newPath).1
      { b with table := (b.table.removePathSubtree plan.newPath).2 }
    rw [hr] at htb
    refine ⟨b', by rw [exec_bind_ok hc, exec_bind_ok hr]; rfl, ?_⟩
    rw [← ht]
    exact htb
  · rw [if_neg hd, if_neg hd, if_neg hd]
    exact ⟨b, rfl, ht⟩

theorem exec_rebindSource (plan : RenamePlan) (told : Tidings)
    (ht : b.table = plan.moved told t) : ∃ b',
    (rebindSource plan told.fid told.after).exec b =
      (.ok (plan.sourced told t).1.isSome, b') ∧ b'.table = (plan.sourced told t).2 := by
  have hc : (change (·.replaceFirstQid plan.before.qid told.fid told.after
      (some plan.newPath))).exec b =
        (.ok (plan.sourced told t).1, { b with table := (plan.sourced told t).2 }) := by
    unfold RenamePlan.sourced
    rw [← ht]
    rfl
  unfold rebindSource
  rw [exec_bind_ok hc]
  cases (plan.sourced told t).1 with
  | none => exact ⟨_, rfl, rfl⟩
  | some oldFid =>
    obtain ⟨_, b', hr⟩ := total_release oldFid { b with table := (plan.sourced told t).2 }
    have htb := quiet_table.steps_release oldFid { b with table := (plan.sourced told t).2 }
    rw [hr] at htb
    exact ⟨b', by rw [exec_bind_ok hr]; rfl, htb⟩

theorem exec_rebindReplaced (plan : RenamePlan) (told : Tidings)
    (ht : b.table = (plan.sourced told t).2)
    (hw : told.replacement = ((walkOne plan.newParentFid newName).exec b).1.toOption) : ∃ b',
    (rebindReplaced plan newName told.after
      (if told.replaced.any isDir then none else told.replaced)).exec b = (.ok (), b') ∧
    b'.table = plan.overwritten told t := by
  have hto : Total (rebindReplaced plan newName told.after
      (if told.replaced.any isDir then none else told.replaced) : Op S Unit) :=
    total_rebindReplaced _ _
  obtain ⟨_, b', hr⟩ := hto b
  refine ⟨b', hr, ?_⟩
  unfold RenamePlan.overwritten RenamePlan.replacing
  by_cases hd : told.replaced.any isDir = true
  · rw [if_pos hd] at hr ⊢
    cases hr
    exact ht
  · rw [if_neg hd] at hr ⊢
    cases hrp : told.replaced with
    | none =>
      rw [hrp] at hr
      cases hr
      exact ht
    | some stat =>
      rw [hrp] at hr
      have hwt := quiet_table.steps_walkOne plan.newParentFid newName b
      unfold rebindReplaced at hr
      rcases hwe : (walkOne plan.newParentFid newName).exec b with ⟨walked, b₁⟩
      rw [hwe] at hw hwt
      have hwa : (attempt (walkOne plan.newParentFid newName)).exec b = (.ok walked, b₁) := by
        show (_, _) = _
        rw [hwe]
      rw [exec_bind_ok hwa] at hr
      cases walked with
      | error e =>
        cases hr
        rw [hw]
        exact hwt.trans ht
      | ok replacement =>
        rw [hw]
        show b'.table = ((plan.sourced told t).2.replaceFirstQid stat.qid replacement told.after
          (some plan.newPath)).2
        have htb := hwt.trans ht
        dsimp only at hr htb
        have hc : (change (·.replaceFirstQid stat.qid replacement told.after
            (some plan.newPath))).exec b₁ =
          (.ok (b₁.table.replaceFirstQid stat.qid replacement told.after (some plan.newPath)).1,
            { b₁ with table := (b₁.table.replaceFirstQid stat.qid replacement told.after
              (some plan.newPath)).2 }) := rfl
        rw [exec_bind_ok hc] at hr
        rw [← htb]
        have hrel (fid : Fid) (c : Bridge S) (h : (release fid).exec c = (.ok (), b')) :
            b'.table = c.table := by
          have h' := quiet_table.steps_release fid c
          rwa [h] at h'
        cases hx : (b₁.table.replaceFirstQid stat.qid replacement told.after
            (some plan.newPath)).1 with
        | none =>
          rw [hx] at hr
          exact hrel _ _ hr
        | some oldFid =>
          rw [hx] at hr
          exact hrel _ _ hr

theorem exec_refreshSource (ht : b.table = plan.overwritten told t) : ∃ b',
    (refreshSource plan told.fid told.after (plan.sourced told t).1.isSome).exec b = (.ok (), b') ∧
      b'.table = plan.renamed told t := by
  unfold refreshSource RenamePlan.renamed
  by_cases hs : (plan.sourced told t).1.isSome = true
  · rw [if_pos hs, if_pos hs]
    exact ⟨b, rfl, ht⟩
  · rw [if_neg hs, if_neg hs]
    have hc : (change fun table => ((), table.refreshQid plan.before.qid told.after
        (some plan.newPath))).exec b = (.ok (), { b with
          table := b.table.refreshQid plan.before.qid told.after (some plan.newPath) }) := rfl
    obtain ⟨_, b', hr⟩ := total_release told.fid { b with
      table := b.table.refreshQid plan.before.qid told.after (some plan.newPath) }
    have htb := quiet_table.steps_release told.fid { b with
      table := b.table.refreshQid plan.before.qid told.after (some plan.newPath) }
    rw [hr] at htb
    refine ⟨b', (exec_bind_ok hc _).trans hr, ?_⟩
    rw [← ht]
    exact htb

end

/-- A renaming that succeeds changes the table by what it is told; one that fails leaves it as it
was. -/
theorem wp_renamePrepared : wp (renamePrepared plan oldName newName) (fun r b' =>
      (r.isOk = true → ∃ told, Hears plan oldName newName b told ∧
        b'.table = plan.renamed told b.table) ∧
      (r.isOk = false → b'.table = b.table)) b := by
  unfold wp renamePrepared
  rcases hr : (renameRemote plan oldName newName).exec b with ⟨r, b₁⟩
  have htr : b₁.table = b.table := (asks_renameRemote.of_exec hr).1
  cases r with
  | error e =>
    rw [exec_bind_error hr]
    exact ⟨nofun, fun _ => htr⟩
  | ok replaced =>
    rw [exec_bind_ok hr]
    have hts := quiet_table.steps_statRenamedFid plan.newParentFid plan.fid newName b₁
    rcases hs : (statRenamedFid plan.newParentFid plan.fid newName).exec b₁ with ⟨r, b₂⟩
    rw [hs] at hts
    have ht₂ : b₂.table = b.table := hts.trans htr
    cases r with
    | error e =>
      rw [exec_bind_error hs]
      exact ⟨nofun, fun _ => ht₂⟩
    | ok renamed =>
      rw [exec_bind_ok hs]
      obtain ⟨fid, after⟩ := renamed
      obtain ⟨b₃, hd, ht₃⟩ := exec_dropReplaced plan ⟨replaced, fid, after, none⟩ ht₂
      obtain ⟨b₄, hsr, ht₄⟩ := exec_rebindSource plan ⟨replaced, fid, after, none⟩ (t := b.table)
        (b := { b₃ with table := b₃.table.movePathPrefix plan.oldPath plan.newPath })
        (congrArg (·.movePathPrefix plan.oldPath plan.newPath) ht₃)
      have hmv : (change fun table =>
          ((), table.movePathPrefix plan.oldPath plan.newPath)).exec b₃ =
        (.ok (), { b₃ with table := b₃.table.movePathPrefix plan.oldPath plan.newPath }) := rfl
      -- The parts up to here do not depend on the walk that is still to come.
      obtain ⟨b₅, hrp, ht₅⟩ := exec_rebindReplaced plan ⟨replaced, fid, after,
          ((walkOne plan.newParentFid newName).exec b₄).1.toOption⟩ (t := b.table) ht₄ rfl
      obtain ⟨b₆, hrf, ht₆⟩ := exec_refreshSource ht₅
      have hrf : (refreshSource plan fid after
          (plan.sourced ⟨replaced, fid, after, none⟩ b.table).1.isSome).exec b₅ =
        (.ok (), b₆) := hrf
      dsimp only at hd hrp ⊢
      rw [exec_bind_ok hd, exec_bind_ok hmv, exec_bind_ok hsr, exec_bind_ok hrp, exec_bind_ok hrf]
      exact ⟨fun _ => ⟨⟨replaced, fid, after,
        ((walkOne plan.newParentFid newName).exec b₄).1.toOption⟩,
        ⟨b₁, b₂, b₃, b₄, _, _, hr, hs, hd, hsr, rfl⟩, ht₆⟩, nofun⟩

/-! ### What is left alone -/

/-- The nodes at or below the old path, and at or below the new one if something there was
replaced. -/
def RenamePlan.Concerns (plan : RenamePlan) (told : Tidings) (t : NodeTable) (nodeid : Nat) :
    Prop :=
  ∃ node, t.nodes[nodeid]? = some node ∧
    (plan.oldPath <+: node.path ∨ told.replaced.isSome = true ∧ plan.newPath <+: node.path)

namespace RenamePlan

/-- The fids that a renaming binds are those of no other node. -/
def Fresh (plan : RenamePlan) (told : Tidings) (t : NodeTable) : Prop :=
  ∀ (nodeid : Nat) (node : Node) (fid : Fid), t.nodes[nodeid]? = some node →
    ¬ plan.Concerns told t nodeid → node.fid = some fid →
      fid ≠ told.fid ∧ ∀ found ∈ replacing told, fid ≠ found.2

variable {told : Tidings} {t : NodeTable}

/-- Where a node that is kept comes to. -/
def place (plan : RenamePlan) (told : Tidings) (t : NodeTable) (nodeid : Nat) (node : Node) :
    Path :=
  if plan.Rewrites told t nodeid then plan.newPath
  else NodeTable.movedPath plan.oldPath plan.newPath node.path

end RenamePlan

/-- The file is to be renamed in its directory. -/
def plainPlan : RenamePlan := ⟨1, 1, 4, fileStat "a" 7, [utf8 "a"], none, [utf8 "b"], false⟩

/-- The server carries the renaming out. -/
def plainMount (table : NodeTable) : Bridge .scripted :=
  .mounted table [1, 2, 3, 4] [Answer.done, .stat (fileStat "b" 7), .done]

/-- What can be seen of a renaming: whether it succeeds, and what became of the two names. -/
def renamed (table : NodeTable) : Bool × List (Option (Path × Option Fid)) :=
  let after := (renamePrepared plainPlan (utf8 "a") (utf8 "b")).exec (plainMount table)
  (after.1.isOk, [2, 3].map after.2.table.seen)

end R9P.Fuse
