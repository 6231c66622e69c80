import R9P.Front.Structure

/-!
# Removes through a relay

Library `Front`. A remove finds the node of its fid before it asks the owner, and removes by the
path of that node once the owner has agreed. Between the two the lock is free. The path leads to
the same node as long as the node stays in the tree; when it was taken out meanwhile, the path
leads to whatever stands there now.
-/

namespace R9P.Front
open Base Base.Checked Wire Server
open Option (bind_eq_some_iff)

namespace State

variable {s : State} {parent id : Nat} {name path : Bytes}

theorem childIn_of_links (h : s.links parent name = some id) :
    s.childIn parent name = .ok (some id) := by
  obtain ⟨node, hn, hc⟩ := links_eq_some.mp h
  have hv : s.node parent = .ok node := by
    rw [State.node, hn]
    rfl
  unfold childIn
  rw [hv]
  dsimp only [bind, Except.bind]
  cases hb : node.body with
  | dir directory =>
    rw [hb] at hc
    exact congrArg Except.ok hc
  | _ =>
    rw [hb] at hc
    cases Std.ExtTreeMap.getElem?_empty.symm.trans hc

theorem descend_of_follow {segments : List Bytes} : ∀ {current : Nat},
    s.links.follow current segments = some id → s.descend current segments = .ok (some id) := by
  induction segments with
  | nil =>
    intro current h
    exact congrArg Except.ok h
  | cons segment segments ih =>
    intro current h
    rw [Links.follow_cons] at h
    obtain ⟨next, hn, h⟩ := bind_eq_some_iff.mp h
    show (s.childIn current segment >>= _) = _
    rw [childIn_of_links hn]
    exact ih h

theorem lookupOptionalPath_of_follow (h : s.links.follow ROOT_ID (pathSegments path) = some id) :
    s.lookupOptionalPath path = .ok (some id) := by
  unfold pathSegments at h
  unfold lookupOptionalPath
  split at h
  · next he =>
    rw [if_pos he]
    exact congrArg Except.ok h
  · next he =>
    rw [if_neg he]
    exact descend_of_follow h

theorem wp_removeSubtreeIfExists {node : Node}
    (hf : s.links.follow ROOT_ID (pathSegments path) = some id) (hr : id ≠ ROOT_ID)
    (hn : s.nodes[id]? = some node) : (removeSubtreeIfExists path).wp
      (fun r s' => r = .ok () ∧ s' = s.detach node.parent node.name id) s := by
  have hl := lookupOptionalPath_of_follow hf
  have hv : s.node id = .ok node := by
    rw [State.node, hn]
    rfl
  refine wp_ask_bind (fun e he => ?_) fun found hfn => ?_
  · cases hl.symm.trans he
  cases hl.symm.trans hfn
  refine wp_refuseIf_bind (fun h => absurd (of_decide_eq_true h) hr) fun _ => ?_
  refine wp_ask_bind (fun e he => ?_) fun found hfn => ?_
  · cases hv.symm.trans he
  · cases hv.symm.trans hfn
    exact ⟨rfl, rfl⟩

/-- A node that was taken out is in the tree no more. -/
theorem Sound.not_attached_detach (hs : s.Sound) (hl : s.links parent name = some id)
    (hr : id ≠ ROOT_ID) : ¬ (s.detach parent name id).Attached id := by
  intro ha
  obtain ⟨f, _, heq, _⟩ := hs.detach hl
  rw [heq] at ha
  obtain ⟨p, n, _, hp⟩ := ha.last.resolve_left hr
  have hc := (links_keeping_eq_some.mp hp).2
  obtain ⟨rfl, rfl⟩ := hs.single p n parent name id (links_of_cut hc) hl
  rw [links_cut, if_pos ⟨rfl, rfl⟩] at hc
  cases hc

end State

namespace Locked

/-- The end of a remove takes the node at its path out of the tree. -/
theorem wp_removed {l : Locked} (hl : l.Sane) (fid : Fid) {path : Bytes} {id : Nat}
    (hf : l.state.links.follow ROOT_ID (State.pathSegments path) = some id) (hr : id ≠ ROOT_ID) :
    (removed fid path).wp (fun _ l' => ¬ l'.state.Attached id) l := by
  have ha : l.state.Attached id := ⟨_, hf⟩
  obtain ⟨node, hn⟩ := hl.firm.sound.exists_of_attached ha
  obtain ⟨hlink, _⟩ := hl.firm.sound.linked_of_attached hn ha hr
  have hb := takes_onState (State.takes_removeSubtreeIfExists path) l hl
  have hd := State.wp_removeSubtreeIfExists hf hr hn
  unfold removed
  rw [wp_bind]
  rw [onState, wp_zoom] at hb ⊢
  unfold wp at hb hd ⊢
  rw [hd.1, hd.2]
  rw [hd.2] at hb
  have hu := balances_unbindFid fid _ (hb.sane hl)
  intro hat
  refine hl.firm.sound.not_attached_detach hlink hr (.back (hu.settled.back hb.firm.sound) hat ?_)
  exact (hl.firm.sound.fresh id node hn).1.trans_le hb.passes.next

/-- What a remove finds out before it asks: the path of the node of its fid. -/
theorem wp_removeTarget (l : Locked) (fid : Fid) (qid : Qid) : (removeTarget fid qid).wp
    (fun r l' => l' = l ∧ ∀ path, r = .ok path → ∃ binding, l.fids[fid]? = some binding ∧
      l.state.pathRelativeTo binding.node ROOT_ID = .ok path) l := by
  have hf : ∀ e, (fun r l' => l' = l ∧ ∀ path, r = .ok path → ∃ binding,
      l.fids[fid]? = some binding ∧
        l.state.pathRelativeTo binding.node ROOT_ID = .ok path) (.error e : Result Bytes) l :=
    fun e => ⟨rfl, fun path h => nomatch h⟩
  refine wp_ask_bind (fun e _ => hf e) fun binding hb => ?_
  refine wp_ask_bind (fun e _ => hf e) fun found _ => ?_
  refine wp_refuseIf_bind (fun _ => hf _) fun _ => ?_
  refine wp_ask_bind (fun e _ => hf e) fun node _ => ?_
  refine wp_refuseIf_bind (fun _ => hf _) fun _ => ?_
  refine wp_ask_bind (fun e _ => hf e) fun _ _ => ?_
  exact ⟨rfl, fun path hpt => ⟨binding, State.okOr_ok hb, hpt⟩⟩

end Locked

/-- A call that is no remove. -/
def Call.NoRemove (call : Call) : Prop := ∀ fid path, call ≠ .removing fid path

theorem Call.noRemove_idle : Call.idle.NoRemove := fun _ _ h => nomatch h

theorem Call.noRemove_looking (walk : Walk) : (Call.looking walk).NoRemove :=
  fun _ _ h => nomatch h

namespace Walk

theorem noRemove_look (walk : Walk) (name : Bytes) (state : State) :
    (walk.look name state).NoRemove := by
  intro fid path h
  unfold look at h
  split at h
  · split at h <;> cases h
  · split at h
    · cases h
    · split at h <;> cases h

theorem noRemove_resolve (walk : Walk) (name : Bytes) (state : State) :
    (walk.resolve name state).NoRemove := by
  intro fid path h
  unfold resolve at h
  split at h
  · cases h
  · split at h
    · split at h
      · cases h
      · split at h <;> cases h
    · cases h

theorem noRemove_enter (walk : Walk) (child : Nat) (state : State) :
    (walk.enter child state).NoRemove := by
  intro fid path h
  unfold enter at h
  split at h <;> cases h

theorem noRemove_await (walk : Walk) (name : Bytes) (reply : Reply) :
    Checked.Yields (fun call _ => Call.NoRemove call) (walk.await name reply) := by
  have hp : ∀ call : Call, call.NoRemove → Checked.Yields (fun call _ => Call.NoRemove call)
        (pure call : Checked State Error Call) := fun call h => yields_pure fun _ => h
  have he : ∀ child, (Call.entering walk child).NoRemove := fun _ _ _ h => nomatch h
  have ha : (Call.awaiting walk name).NoRemove := fun _ _ h => nomatch h
  refine yields_bind fun detached => yields_bind fun body => ?_
  refine .ite (hp _ Call.noRemove_idle) ?_
  split
  · split
    · exact hp _ (he _)
    · exact hp _ ha
    · exact hp _ Call.noRemove_idle
    · refine yields_bind fun result => ?_
      split
      · exact hp _ (he _)
      · exact hp _ ha
  · exact hp _ Call.noRemove_idle

end Walk

namespace World

variable {w w' : World} {id : Nat} {session : Session} {fid : Fid} {path : Bytes}
  {binding : FidBinding} {action : Action} {other : Nat}

/-- In this session a remove of a path waits for the owner. -/
structure Waiting (w : World) (id : Nat) (session : Session) (fid : Fid) (path : Bytes) :
    Prop where
  found : w.sessions[id]? = some session
  call : session.call = .removing fid path

/-- The condition under which removes by path are harmless: a remove begins on a node that its
path leads to; while one waits whose node was taken out, no node that was taken out is pushed back;
and when it is agreed to, its node is still in the tree or nothing stands at its path. -/
def Prudent (w : World) : Action → Prop
  | .owner op =>
    (∃ id session fid path binding, w.Waiting id session fid path ∧
      session.fids[fid]? = some binding ∧ ¬ w.state.Attached binding.node) → op.Calm w.state
  | .remove id fid _ => ∀ (session : Session) (binding : FidBinding) (path : Bytes),
    w.sessions[id]? = some session → session.fids[fid]? = some binding →
      w.state.pathRelativeTo binding.node ROOT_ID = .ok path →
      w.state.links.follow ROOT_ID (State.pathSegments path) = some binding.node
  | .answered id (some _) => ∀ (session : Session) (fid : Fid) (path : Bytes)
      (binding : FidBinding), w.Waiting id session fid path → session.fids[fid]? = some binding →
      ¬ w.state.Attached binding.node →
      w.state.links.follow ROOT_ID (State.pathSegments path) = none
  | _ => True

/-- A remove that began in this step, on a fid that was bound to a node with this path. -/
def Began (w : World) (action : Action) (id : Nat) (session : Session) (fid : Fid) (path : Bytes)
    (w' : World) : Prop :=
  ∃ qid before binding, action = .remove id fid qid ∧ w'.state = w.state ∧
    w.sessions[id]? = some before ∧ session.fids = before.fids ∧
    before.fids[fid]? = some binding ∧ w.state.pathRelativeTo binding.node ROOT_ID = .ok path

-- A session that goes on with another call was not the one that waits.
private theorem Waiting.of_insert {after : Session} (hc : after.call.NoRemove)
    (hss : w'.sessions = w.sessions.insert other after)
    (h : w'.Waiting id session fid path) : w.Waiting id session fid path := by
  have hs := h.found
  rw [hss, get_insert] at hs
  split at hs
  · cases hs
    exact absurd h.call (hc fid path)
  · exact ⟨hs, h.call⟩

private theorem waiting_of_advanced {before : Session} {reply : Reply}
    (hnx : w.advanced other before reply = some w') (h : w'.Waiting id session fid path) :
    w.Waiting id session fid path := by
  unfold World.advanced at hnx
  split at hnx
  · next walk _ =>
    split at hnx
    · cases hnx
      exact h.of_insert Call.noRemove_idle rfl
    · cases hnx
      exact h.of_insert (Walk.noRemove_look _ _ _) rfl
  · next walk name _ =>
    cases hnx
    exact h.of_insert (walk.noRemove_resolve name _) rfl
  · next walk name _ =>
    cases hnx
    refine h.of_insert ?_ rfl
    cases hr : ((Locked.onState (walk.await name reply)).exec ⟨w.state, before.fids⟩).1 with
    | error e => exact Call.noRemove_idle
    | ok call =>
      have he : ((walk.await name reply).exec w.state).1 = .ok call := hr
      exact walk.noRemove_await name reply w.state call _ (Prod.ext he rfl)
  · next walk child _ =>
    cases hnx
    exact h.of_insert (walk.noRemove_enter child _) rfl
  · cases hnx

private theorem waiting_of_remove {before : Session} {otherFid : Fid} {qid : Qid}
    (hbf : w.sessions[other]? = some before)
    (h : (w.holding other before (Locked.removeTarget otherFid qid) fun
      | .ok path => .removing otherFid path
      | .error _ => .idle).Waiting id session fid path) :
    w.Waiting id session fid path ∨ w.Began (.remove other otherFid qid) id session fid path
      (w.holding other before (Locked.removeTarget otherFid qid) fun
        | .ok path => .removing otherFid path
        | .error _ => .idle) := by
  obtain ⟨hs, hc⟩ := h
  have hsp := Locked.wp_removeTarget ⟨w.state, before.fids⟩ otherFid qid
  unfold wp at hsp
  dsimp only [World.holding] at hs ⊢
  generalize (Locked.removeTarget otherFid qid).exec ⟨w.state, before.fids⟩ = result at hsp hs ⊢
  obtain ⟨r, l⟩ := result
  obtain ⟨rfl, hpt⟩ := hsp
  rw [get_insert] at hs
  split at hs
  · next heq =>
    cases hs
    cases r with
    | error e => cases hc
    | ok target =>
      cases hc
      obtain ⟨binding, hb, hr⟩ := hpt path rfl
      cases heq
      exact .inr ⟨qid, before, binding, rfl, rfl, hbf, rfl, hb, hr⟩
  · exact .inl ⟨hs, hc⟩

/-- A remove that waits has waited before, or began in this step. -/
theorem waiting_or_began (hnx : w.next action = some w') (h : w'.Waiting id session fid path) :
    w.Waiting id session fid path ∨ w.Began action id session fid path w' := by
  have hi := Call.noRemove_idle
  cases action with
  | owner op =>
    cases hnx
    exact .inl ⟨h.found, h.call⟩
  | tree =>
    cases hnx
    exact .inl (h.of_insert hi rfl)
  | drop other =>
    obtain ⟨before, _, hf⟩ := begun_eq_some hnx
    cases hf
    have hs := h.found
    rw [get_erase] at hs
    split at hs
    · cases hs
    · exact .inl (Waiting.of_insert hi rfl ⟨hs, h.call⟩)
  | attach other fid uname aname | openFid other fid qid mode | write other fid requestId data
  | clunk other fid =>
    obtain ⟨before, _, hf⟩ := begun_eq_some hnx
    cases hf
    exact .inl (h.of_insert hi rfl)
  | walk other fid newfid names =>
    obtain ⟨before, _, hf⟩ := begun_eq_some hnx
    split at hf
    · cases hf
      exact .inl (h.of_insert (Call.noRemove_looking _) rfl)
    · cases hf
      exact .inl h
  | create other fid qid name =>
    obtain ⟨before, _, hf⟩ := begun_eq_some hnx
    cases hf
    refine .inl (h.of_insert ?_ rfl)
    dsimp only
    split
    · exact fun _ _ hc => nomatch hc
    · exact hi
  | remove other otherFid qid =>
    obtain ⟨before, hbf, hf⟩ := begun_eq_some hnx
    cases hf
    exact waiting_of_remove hbf h
  | advance other reply =>
    obtain ⟨before, _, hf⟩ := bind_eq_some_iff.mp hnx
    exact .inl (waiting_of_advanced hf h)
  | answered other qidPath =>
    obtain ⟨before, _, hf⟩ := bind_eq_some_iff.mp hnx
    unfold World.answered at hf
    split at hf
    · cases hf
      exact .inl (h.of_insert hi rfl)
    · cases hf
      exact .inl (h.of_insert hi rfl)
    · cases hf
      exact .inl (h.of_insert hi rfl)
    · cases hf
      exact .inl (h.of_insert hi rfl)
    · cases hf

/-- A session whose remove waits begins no other. -/
theorem Waiting.not_remove (h : w.Waiting id session fid path) (other : Fid) (qid : Qid) :
    w.next (.remove id other qid) = none := by
  show w.begun id _ = none
  unfold begun
  rw [h.found]
  dsimp only
  rw [h.call, if_neg nofun]

end World

/-- The last remove of a session began on a fid that was bound to this. -/
def IssuedOn (history : List Action) (id : Nat) (fid : Fid) (binding : FidBinding) : Prop :=
  ∃ (newer older : List Action) (qid : Qid) (w : World) (session : Session),
    history = newer ++ .remove id fid qid :: older ∧
    (∀ action ∈ newer, ∀ other qid, action ≠ .remove id other qid) ∧
    fronting.Run older w ∧ w.sessions[id]? = some session ∧ session.fids[fid]? = some binding

namespace State

variable {s s' : State} {path : Bytes} {id : Nat}

/-- A node that a path leads to for as long as the node is in the tree. -/
structure Tracks (s : State) (path : Bytes) (id : Nat) : Prop where
  lt : id < s.nextId
  follow : s.Attached id → s.links.follow ROOT_ID (pathSegments path) = some id

/-- A node that is still in the tree has kept its path, if no node got a new place. -/
theorem Tracks.settled (h : s.Tracks path id) (hs : s.Sound) (hnx : s.nextId ≤ s'.nextId)
    (hst : s.Settled s') : s'.Tracks path id := by
  refine ⟨h.lt.trans_le hnx, fun ⟨names, hn⟩ => ?_⟩
  have hbf := Links.follow_back (hst.back hs) hn h.lt
  have hpt := h.follow ⟨names, hbf⟩
  rwa [← hs.single.follow_inj hs.rootTop hbf hpt]

end State

/-- What is not calm takes nothing out. -/
theorem OwnerOp.removes_of_not_calm {op : OwnerOp} {s : State} (h : ¬ op.Calm s) :
    op.removes s = [] := by
  cases op with
  | setPushedFile path bytes metadata | setPushedDirectory path metadata => rfl
  | _ => exact absurd trivial h

namespace World

variable {w w' : World} {id : Nat} {session : Session} {fid : Fid} {path : Bytes}
  {binding : FidBinding} {action : Action} {history : List Action}

/-- A remove that waits is tracked by its path: in calm steps no node gets a new place, and
others leave the paths of the tree. -/
theorem Waiting.tracks (hw : w.Ordered) (hp : w.Prudent action) (hnx : w.next action = some w')
    (h : w.Waiting id session fid path) (hb : session.fids[fid]? = some binding)
    (htr : w.state.Tracks path binding.node) : w'.state.Tracks path binding.node := by
  have hps := hw.passes hnx
  by_cases hc : ∀ op, action = .owner op → op.Calm w.state
  · exact htr.settled hw.firm.sound hps.next (hw.settled hnx hc)
  · obtain ⟨op, hop⟩ := not_forall.mp hc
    obtain ⟨hac, hl⟩ := Classical.not_imp.mp hop
    subst hac
    have ha : w.state.Attached binding.node := by
      by_contra hg
      exact hl (hp ⟨id, session, fid, path, binding, h, hb, hg⟩)
    refine ⟨htr.lt.trans_le hps.next, fun _ => ?_⟩
    refine hps.paths _ _ (htr.follow ha) ?_
    show ∀ t ∈ op.removes w.state, _
    rw [OwnerOp.removes_of_not_calm hl]
    exact fun t ht => absurd ht List.not_mem_nil

/-- What holds of every remove that waits. -/
structure Following (history : List Action) (w : World) : Prop where
  ordered : w.Ordered
  waits : ∀ id session fid path, w.Waiting id session fid path →
    ∃ binding, session.fids[fid]? = some binding ∧ w.state.Tracks path binding.node ∧
      IssuedOn history id fid binding

theorem Following.next (h : Following history w) (run : fronting.Run history w)
    (hp : w.Prudent action) (hnx : w.next action = some w') :
    Following (action :: history) w' := by
  refine ⟨h.ordered.next hnx, fun id session fid path hwt => ?_⟩
  rcases waiting_or_began hnx hwt with hbf | hbg
  · obtain ⟨binding, hb, htr, newer, older, qid, w₀, began, rfl, hn, hr⟩ :=
      h.waits id session fid path hbf
    refine ⟨binding, hb, hbf.tracks h.ordered hp hnx hb htr,
      action :: newer, older, qid, w₀, began, rfl, fun later hl other qid heq => ?_, hr⟩
    rcases List.mem_cons.mp hl with rfl | hl
    · rw [heq, hbf.not_remove] at hnx
      cases hnx
    · exact hn later hl other qid heq
  · obtain ⟨qid, before, binding, rfl, hst, hs, hfd, hb, hpt⟩ := hbg
    have hf := hp before binding path hs hb hpt
    obtain ⟨node, hnd⟩ := h.ordered.firm.sound.exists_of_attached ⟨_, hf⟩
    rw [hst, hfd]
    exact ⟨binding, hb, ⟨(h.ordered.firm.sound.fresh _ node hnd).1, fun _ => hf⟩, [],
      history, qid, w, before, rfl, fun _ hl => absurd hl List.not_mem_nil, run, hs,
      hb⟩

theorem following_of_run (run : (fronting.restrict Prudent).Run history w) :
    Following history w := by
  refine run.invariant (I := Following) (fun w hw => ?_) ?_
  · cases hw
    refine ⟨ordered_new, fun id session fid path hwt => ?_⟩
    have hs := hwt.found
    rw [show World.new.sessions[id]? = none from Std.ExtTreeMap.getElem?_empty] at hs
    cases hs
  · intro history w action w' run h ⟨hp, hnx⟩
    exact h.next run.of_restrict hp hnx

/-- What the end of a remove takes out: the node of its fid, or nothing. -/
theorem Waiting.removes_answered {qidPath : UInt64}
    (hp : w.Prudent (.answered id (some qidPath))) (h : w.Waiting id session fid path)
    (hb : session.fids[fid]? = some binding) (htr : w.state.Tracks path binding.node) :
    ∀ t ∈ w.removes (.answered id (some qidPath)),
      t = binding.node ∧ w.state.Attached binding.node := by
  intro t ht
  have hr : t ∈ State.removedBy path w.state := by
    unfold removes at ht
    dsimp only at ht
    unfold removesEnding at ht
    rw [h.found, Option.elim_some, h.call] at ht
    exact ht
  unfold State.removedBy at hr
  split at hr
  · next found hfn =>
    have hf := State.follow_of_lookupOptionalPath hfn
    have heq : t = found := by
      split at hr
      · exact absurd hr List.not_mem_nil
      · exact List.mem_singleton.mp hr
    have ha : w.state.Attached binding.node := by
      by_contra hg
      rw [hp session fid path binding h hb hg] at hf
      cases hf
    rw [htr.follow ha] at hf
    exact ⟨heq.trans (Option.some.inj hf).symm, ha⟩
  · exact absurd hr List.not_mem_nil

end World

/-- **Removes of their own nodes**. In every run in which removes begin on nodes that their paths
lead to, nothing is pushed back while a remove waits whose node was taken out, and a remove is
agreed to only while its node is in the tree or nothing stands at its path, the end of a remove
takes out the node to which the fid was bound when the remove began, unless that is the root, and
leaves every path of the tree that does not lead into it. If that node has gone already, every path
stays. -/
theorem remove_takes_own_node {history : List Action} {w w' : World} {id : Nat} {session : Session}
    {fid : Fid} {path : Bytes} {qidPath : UInt64}
    (run : (fronting.restrict World.Prudent).Run history w) (waits : w.Waiting id session fid path)
    (step : (fronting.restrict World.Prudent).step w (.answered id (some qidPath)) w') :
    ∃ binding, IssuedOn history id fid binding ∧
      (binding.node ≠ ROOT_ID → ¬ w'.state.Attached binding.node) ∧
      ∀ names n, w.state.links.follow ROOT_ID names = some n →
        (w.state.Attached binding.node → ¬ w.state.links.Within binding.node n) →
        w'.state.links.follow ROOT_ID names = some n := by
  obtain ⟨hp, hnx⟩ := step
  have hf := World.following_of_run run
  obtain ⟨binding, hb, htr, hi⟩ := hf.waits id session fid path waits
  refine ⟨binding, hi, fun hr hat => ?_, fun names n hn ho => ?_⟩
  · have hst := hf.ordered.settled hnx fun _ h => nomatch h
    have ha : w.state.Attached binding.node := .back (hst.back hf.ordered.firm.sound) hat htr.lt
    have hne : w.answered id session (some qidPath) = some w' := by
      obtain ⟨found, hs, hne⟩ := bind_eq_some_iff.mp hnx
      cases waits.found.symm.trans hs
      exact hne
    unfold World.answered at hne
    rw [waits.call] at hne
    cases hne
    exact Locked.wp_removed (hf.ordered.sane waits.found) fid (htr.follow ha) hr hat
  · refine (hf.ordered.passes hnx).paths names n hn fun t ht => ?_
    obtain ⟨rfl, ha⟩ := waits.removes_answered hp hb htr t ht
    exact ho ha

/-- A client stands ready to remove one of two files. -/
def removeReady : List Action :=
  [.owner (.set (utf8 "f") (utf8 "x")), .owner (.set (utf8 "g") (utf8 "y")),
    .owner (.registerRemoveRelay (utf8 "f")), .tree, .attach 1 1 (utf8 "u") [],
    .walk 1 1 2 [utf8 "f"], .advance 1 .pending, .advance 1 .pending, .advance 1 .pending]

/-- The remove of its file. -/
def removeBegun : Action := .remove 1 2 ⟨0, 0, 1⟩

/-- What the names of the two files lead to. -/
def namedFiles (w : World) : Option Nat × Option Nat :=
  (w.state.links ROOT_ID (utf8 "f"), w.state.links ROOT_ID (utf8 "g"))

/-- The fid of the client is bound to its file, which is where its path leads to. -/
def readyView (w : World) : Option Nat × Option Bytes × Option Nat :=
  ((w.sessions[1]?.bind fun session => session.fids[(2 : Fid)]?).map (·.node),
    (w.state.pathRelativeTo 1 ROOT_ID).toOption,
    w.state.links.follow ROOT_ID (State.pathSegments (utf8 "/f")))

theorem remove_takes_own_node_file : ∃ w w' session path,
    (fronting.restrict World.Prudent).Run (removeBegun :: removeReady.reverse) w ∧
      w.Waiting 1 session 2 path ∧ w.next (.answered 1 (some 1)) = some w' ∧
      namedFiles w = (some 1, some 2) ∧ namedFiles w' = (none, some 2) ∧
      ∃ binding, IssuedOn (removeBegun :: removeReady.reverse) 1 2 binding ∧
        (binding.node ≠ ROOT_ID → ¬ w'.state.Attached binding.node) ∧
        ∀ names n, w.state.links.follow ROOT_ID names = some n →
          (w.state.Attached binding.node → ¬ w.state.links.Within binding.node n) →
          w'.state.links.follow ROOT_ID names = some n := by
  have hrd : (removeReady.foldlM World.next World.new).map readyView =
      some (some 1, some (utf8 "/f"), some 1) := by decide +kernel
  have hv : ((removeReady.foldlM World.next World.new).bind fun w₀ =>
      (w₀.next removeBegun).bind fun w => (w.next (.answered 1 (some 1))).bind fun w' =>
        (w.sessions[1]?).map fun session => (namedFiles w, namedFiles w', session.call,
          (session.fids[(2 : Fid)]?).map (·.node))) =
      some ((some 1, some 2), (none, some 2), .removing 2 (utf8 "/f"), some 1) := by
    decide +kernel
  obtain ⟨w₀, hw₀, hv⟩ := bind_eq_some_iff.mp hv
  rw [hw₀, Option.map_some] at hrd
  obtain ⟨w, hw, hv⟩ := bind_eq_some_iff.mp hv
  obtain ⟨w', hw', hv⟩ := bind_eq_some_iff.mp hv
  obtain ⟨session, hs, hv⟩ := Option.map_eq_some_iff.mp hv
  simp only [Prod.mk.injEq] at hv
  obtain ⟨hn, hn', hc, hnd⟩ := hv
  have hrn₀ : (fronting.restrict World.Prudent).Run removeReady.reverse w₀ := by
    refine .of_foldlM rfl (fun w action hac w' h => ⟨?_, h⟩) hw₀
    simp only [removeReady, List.mem_cons, List.not_mem_nil, or_false] at hac
    rcases hac with rfl | rfl | rfl | rfl | rfl | rfl | rfl | rfl | rfl
    all_goals first | exact trivial | exact fun _ => trivial
  have hrn : (fronting.restrict World.Prudent).Run (removeBegun :: removeReady.reverse) w := by
    refine .next hrn₀ ⟨fun session binding path hs hb hpt => ?_, hw⟩
    obtain ⟨hbn, hr, hf⟩ : _ ∧ _ ∧ _ := by
      simpa only [readyView, Option.some.injEq, Prod.mk.injEq] using hrd
    rw [hs, Option.bind_some, hb] at hbn
    have hbn : binding.node = 1 := Option.some.inj hbn
    rw [hbn] at hpt ⊢
    rw [hpt] at hr
    cases hr
    exact hf
  have hwt : w.Waiting 1 session 2 (utf8 "/f") := ⟨hs, hc⟩
  have hst : (fronting.restrict World.Prudent).step w (.answered 1 (some 1)) w' := by
    refine ⟨fun other fid path binding ho hb hg => absurd ?_ hg, hw'⟩
    cases ho.found.symm.trans hs
    cases ho.call.symm.trans hc
    rw [hb] at hnd
    have hnd : binding.node = 1 := Option.some.inj hnd
    rw [hnd]
    refine ⟨[utf8 "f"], ?_⟩
    rw [Links.follow_cons, show w.state.links ROOT_ID (utf8 "f") = some 1 from congrArg Prod.fst hn]
    rfl
  exact ⟨w, w', session, utf8 "/f", hrn, hwt, hw', hn, hn', remove_takes_own_node hrn hwt hst⟩

/-- While the remove waits, the owner takes the file out and publishes another at its path. -/
def fileReplaced : List Action :=
  removeReady ++ [removeBegun, .owner (.removeSubtreeIfExists (utf8 "f")),
    .owner (.set (utf8 "f") (utf8 "z"))]

/-- The end of the remove takes out the file that was published meanwhile. -/
theorem remove_takes_new_node : ∃ w w' session binding, fronting.Run fileReplaced.reverse w ∧
    w.Waiting 1 session 2 (utf8 "/f") ∧ session.fids[(2 : Fid)]? = some binding ∧
      w.next (.answered 1 (some 1)) = some w' ∧ w.state.links ROOT_ID (utf8 "f") ≠
        some binding.node ∧ (w.state.links ROOT_ID (utf8 "f")).isSome = true ∧
      w'.state.links ROOT_ID (utf8 "f") = none := by
  have hv : ((fileReplaced.foldlM World.next World.new).bind fun w =>
      (w.next (.answered 1 (some 1))).bind fun w' => (w.sessions[1]?).bind fun session =>
        (session.fids[(2 : Fid)]?).map fun binding => (namedFiles w, namedFiles w', session.call,
          binding.node)) =
      some ((some 3, some 2), (none, some 2), .removing 2 (utf8 "/f"), 1) := by decide +kernel
  obtain ⟨w, hw, hv⟩ := bind_eq_some_iff.mp hv
  obtain ⟨w', hw', hv⟩ := bind_eq_some_iff.mp hv
  obtain ⟨session, hs, hv⟩ := bind_eq_some_iff.mp hv
  obtain ⟨binding, hb, hv⟩ := Option.map_eq_some_iff.mp hv
  simp only [namedFiles, Prod.mk.injEq] at hv
  obtain ⟨⟨hn, _⟩, ⟨hn', _⟩, hc, hnd⟩ := hv
  have hrn : fronting.Run fileReplaced.reverse w := .of_foldlM rfl (fun _ _ _ _ h => h) hw
  refine ⟨w, w', session, binding, hrn, ⟨hs, hc⟩, hb, hw', ?_, ?_, hn'⟩
  · rw [hn, hnd]
    decide
  · rw [hn]
    rfl

end R9P.Front
