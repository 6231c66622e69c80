import R9P.Front.Structure

/-!
# Walks below the root of a principal

Library `Front`. A walk stops at the root of its fid because it compares ids. A node that was taken
out while a fid refers to it, and is pushed again, hangs below new directories, and from there a
walk goes past the old root to the rest of the tree. Where no push puts a node back, a walk that
stands on a node of the tree stands below its root, and goes to a node below its root.
-/

namespace R9P.Front
open Std Base Base.Checked Wire Server State
open Option (bind_eq_some_iff map_eq_some_iff)
open ExtTreeMap (getElem?_insert_self)

namespace State

variable {s s' : State} {root n : Nat}

/-- A node that is below a root for as long as it is in the tree. -/
structure Inside (s : State) (root n : Nat) : Prop where
  lt : n < s.nextId
  within : s.Attached n → s.links.Within root n

theorem Inside.settled (h : s.Inside root n) (hs : s.Sound) (hnx : s.nextId ≤ s'.nextId)
    (hsl : s.Settled s') : s'.Inside root n := by
  have ho := hsl.back hs
  refine ⟨h.lt.trans_le hnx, fun ha => ?_⟩
  exact hs.single.forward hs.rootTop ho ha h.lt (h.within (.back ho ha h.lt))

/-- What is below a node of the tree. -/
theorem Sound.inside (hs : s.Sound) (hr : s.Attached root) (hn : s.links.Within root n) :
    s.Inside root n := by
  obtain ⟨node, hnd⟩ := hs.exists_of_attached (hr.trans hn)
  exact ⟨(hs.fresh n node hnd).1, fun _ => hn⟩

/-- The parent of a node below a root, unless it is the root. -/
theorem Sound.within_parent (hs : s.Sound) {node : Node} (hnd : s.nodes[n]? = some node)
    (hn : s.links.Within root n) (hne : n ≠ root) : s.links.Within root node.parent := by
  rcases hn.last with heq | ⟨p, name, hp, hl⟩
  · exact absurd heq hne
  · obtain ⟨_, found, hfn, rfl, _⟩ := hs.listed p name n hl
    cases hnd.symm.trans hfn
    exact hp

end State

/-! ### Walks -/

/-- The walk that runs and the node on which it stands. -/
def Call.standing : Call → Option (Walk × Nat)
  | .looking walk => some (walk, walk.current)
  | .resolving walk _ => some (walk, walk.current)
  | .awaiting walk _ => some (walk, walk.current)
  | .entering walk child => some (walk, child)
  | _ => none

/-- A call that goes on as the walk of a fid, which stands below the root of the fid, or ends. -/
structure Call.Below (call : Call) (s : State) (binding : FidBinding) : Prop where
  standing : ∀ walk n, call.standing = some (walk, n) →
    walk.binding = binding ∧ s.links.Within binding.root n
  notCreating : ∀ fid binding, call ≠ .creating fid binding

theorem Call.Below.inside {call : Call} {s : State} {binding : FidBinding}
    (h : call.Below s binding) (hs : s.Sound) (hr : s.Attached binding.root) (walk : Walk)
    (n : Nat) (hst : call.standing = some (walk, n)) : s.Inside walk.binding.root n := by
  obtain ⟨rfl, hn⟩ := h.standing walk n hst
  exact hs.inside hr hn

namespace Walk

variable {s : State} {walk : Walk} {name : Bytes}

theorem below_idle (s : State) (binding : FidBinding) : Call.Below .idle s binding :=
  ⟨fun _ _ h => (nomatch h), fun _ _ h => nomatch h⟩

theorem below_entering {child : Nat} (h : s.links.Within walk.binding.root child) :
    Call.Below (.entering walk child) s walk.binding := by
  refine ⟨fun _ _ hst => ?_, fun _ _ h => nomatch h⟩
  cases hst
  exact ⟨rfl, h⟩

section
variable (h : s.links.Within walk.binding.root walk.current) (name : Bytes)
include h

theorem below_resolving : Call.Below (.resolving walk name) s walk.binding := by
  refine ⟨fun _ _ hst => ?_, fun _ _ h => nomatch h⟩
  cases hst
  exact ⟨rfl, h⟩

theorem below_awaiting : Call.Below (.awaiting walk name) s walk.binding := by
  refine ⟨fun _ _ hst => ?_, fun _ _ h => nomatch h⟩
  cases hst
  exact ⟨rfl, h⟩

end

theorem below_look (walk : Walk) (hs : s.Sound)
    (h : s.links.Within walk.binding.root walk.current) (name : Bytes) : (walk.look name s).Below s
      walk.binding := by
  unfold look
  split
  · split
    · exact below_entering h
    · exact below_idle s _
  · next node hnd =>
    split
    · refine below_entering ?_
      split
      · exact h
      · next hne => exact hs.within_parent hnd h hne
    · split
      · next child hc =>
        exact below_entering (h.child ((links_of_node hnd).trans hc))
      · exact below_resolving h name

theorem links_of_body {directory : DirectoryBody} {id : Nat}
    (h : (s.nodes[id]?).map Node.body = some (.dir directory)) (name : Bytes) :
    s.links id name = directory.children[name]? := by
  obtain ⟨node, hnd, hb⟩ := map_eq_some_iff.mp h
  rw [links_of_node hnd, hb]
  rfl

theorem below_resolve (h : s.links.Within walk.binding.root walk.current) (name : Bytes) :
    (walk.resolve name s).Below s walk.binding := by
  unfold resolve
  split
  · exact below_idle s _
  · split
    · next directory hb =>
      split
      · next child hc =>
        exact below_entering (h.child ((links_of_body hb name).trans hc))
      · split
        · exact below_awaiting h name
        · exact below_idle s _
    · exact below_idle s _

theorem below_await (hs : s.Sound) (h : s.links.Within walk.binding.root walk.current)
    (name : Bytes) (reply : Reply) : wp (walk.await name reply)
      (fun r s' => (r.toOption.getD .idle).Below s' walk.binding) s := by
  refine wp_ask_bind (fun _ h => nomatch h) fun detached _ => ?_
  refine wp_ask_bind (fun _ h => nomatch h) fun body hb => ?_
  have hb : (s.nodes[walk.current]?).map Node.body = body := Except.ok.inj hb
  split
  · exact below_idle s _
  · split
    · next directory =>
      split
      · next child hc =>
        exact below_entering (h.child ((links_of_body hb name).trans hc))
      · exact below_awaiting h name
      · exact below_idle s _
      · next metadata read removal _ =>
        rw [wp_bind, wp_attempt]
        refine (grown_insertPushedChildDirectory hs walk.current name metadata read
          removal).mono fun r s' ⟨hg, hc⟩ => ?_
        have h' := hg.within h
        cases r with
        | ok child => exact below_entering (h'.child (hc child rfl))
        | error e => exact below_awaiting h' name
    · exact below_idle s _

theorem below_enter {child : Nat} (h : s.links.Within walk.binding.root child) :
    (walk.enter child s).Below s walk.binding := by
  unfold enter
  split
  · refine ⟨fun _ _ hst => ?_, fun _ _ h => nomatch h⟩
    cases hst
    exact ⟨rfl, h⟩
  · exact below_idle s _

end Walk

/-! ### Worlds -/

/-- The fids of a session are bound below their roots, and so stands its walk. -/
structure Session.Confined (session : Session) (s : State) : Prop where
  bound : ∀ (fid : Fid) (binding : FidBinding), session.fids[fid]? = some binding →
    s.Inside binding.root binding.node
  standing : ∀ walk n, session.call.standing = some (walk, n) → s.Inside walk.binding.root n
  notCreating : ∀ fid binding, session.call ≠ .creating fid binding

theorem Session.Confined.settled {session : Session} {s s' : State} (h : session.Confined s)
    (hs : s.Sound) (hnx : s.nextId ≤ s'.nextId) (hsl : s.Settled s') :
    session.Confined s' :=
  ⟨fun fid binding hb => (h.bound fid binding hb).settled hs hnx hsl,
    fun walk n hst => (h.standing walk n hst).settled hs hnx hsl,
    h.notCreating⟩

namespace Locked

variable {α : Type} {l l' : Locked}

/-- The fids of a tree are as before, or bound as given. -/
def Rebound (l : Locked) (new : FidBinding → Prop) (l' : Locked) : Prop :=
  ∀ (fid : Fid) (binding : FidBinding), l'.fids[fid]? = some binding →
    l.fids[fid]? = some binding ∨ new binding

theorem rebound_of_eq (new : FidBinding → Prop) (h : l'.fids = l.fids) : l.Rebound new l' := by
  intro fid binding hb
  rw [h] at hb
  exact .inl hb

theorem rebound_erase {new : FidBinding → Prop} {fid : Fid} (h : l'.fids = l.fids.erase fid) :
    l.Rebound new l' := by
  intro other binding hb
  rw [h, get_erase] at hb
  split at hb
  · cases hb
  · exact .inl hb

theorem rebound_insert {fid : Fid} {new : FidBinding} (h : l'.fids = l.fids.insert fid new) :
    l.Rebound (· = new) l' := by
  intro other binding hb
  rw [h, get_insert] at hb
  split at hb
  · cases hb
    exact .inr rfl
  · exact .inl hb

theorem frames_onState (x : Checked State Error α) : Checked.Frames Locked.fids (onState x) :=
  fun _ => rfl

section
variable (l : Locked)

theorem rebound_bindFid (fid : Fid) (binding : FidBinding) :
    wp (bindFid fid binding) (fun _ l' => l.Rebound (fun new => new = binding ∧
      ∃ node, l.state.nodes[binding.node]? = some node) l') l := by
  refine (wp_bindFid l fid binding).mono fun _ l' h => ?_
  rcases h with ⟨hnd, hf⟩ | ⟨_, hf⟩
  · exact fun other new hn => (rebound_insert hf other new hn).imp id fun h => ⟨h, hnd⟩
  · exact rebound_of_eq _ hf

theorem rebound_unbindFid (fid : Fid) :
    wp (unbindFid fid) (fun _ l' => l.Rebound (fun _ => False) l') l := by
  refine wp_ask_bind (fun _ h => nomatch h) fun found _ => ?_
  cases found with
  | none => exact rebound_of_eq _ rfl
  | some binding =>
    exact rebound_erase rfl

theorem rebound_attach (id : Nat) (fid : Fid) (uname aname : Bytes) :
    wp (attach id fid uname aname) (fun _ l' => l.Rebound (fun new =>
      new.root = new.node ∧ ∃ node, l.state.nodes[new.node]? = some node) l') l := by
  have hs : ∀ new, l.Rebound new l := fun new => rebound_of_eq new rfl
  refine wp_ask_bind (fun _ _ => hs _) fun root _ => ?_
  refine wp_ask_bind (fun _ _ => hs _) fun principalId _ => ?_
  refine wp_ask_bind (fun _ _ => hs _) fun qid _ => ?_
  rw [wp_bind]
  refine (rebound_bindFid l fid _).mono fun r l' h => ?_
  have ha : l.Rebound (fun new => new.root = new.node ∧
      ∃ node, l.state.nodes[new.node]? = some node) l' := by
    intro other new hn
    refine (h other new hn).imp (fun h => h) ?_
    rintro ⟨rfl, hnd⟩
    exact ⟨rfl, hnd⟩
  cases r with
  | error e | ok u => exact ha

theorem rebound_removed (fid : Fid) (path : Bytes) :
    wp (removed fid path) (fun _ l' => l.Rebound (fun _ => False) l') l := by
  refine (frames_onState _).wp_bind (fun _ l' h => rebound_of_eq _ h) fun _ l' _ h => ?_
  refine (rebound_unbindFid l' fid).mono fun _ l'' hr other binding hb => ?_
  rw [← show l'.fids = l.fids from h]
  exact hr other binding hb

theorem rebound_dropped : wp dropped (fun _ l' => l.Rebound (fun _ => False) l') l := by
  intro fid binding hb
  cases hb

end

theorem frames_openFid (fid : Fid) (qid : Qid) (mode : UInt8) :
    Checked.Frames Locked.fids (openFid fid qid mode) :=
  (frames_ask _).bind fun _ => (frames_ask _).bind fun _ =>
    (frames_refuseIf _ _).bind fun _ => (frames_ask _).bind fun _ =>
      frames_refuseIf _ _

theorem frames_removeTarget (fid : Fid) (qid : Qid) :
    Checked.Frames Locked.fids (removeTarget fid qid) :=
  (frames_ask _).bind fun _ => (frames_ask _).bind fun _ =>
    (frames_refuseIf _ _).bind fun _ => (frames_ask _).bind fun _ =>
      (frames_refuseIf _ _).bind fun _ => (frames_ask _).bind fun _ =>
        frames_ask _

theorem frames_write (fid : Fid) (requestId data : Bytes) :
    Checked.Frames Locked.fids (write fid requestId data) := by
  refine (frames_ask _).bind fun _ => (frames_ask _).bind fun _ => ?_
  refine (frames_ask _).bind fun _ => (frames_ask _).bind fun node => ?_
  split
  · exact frames_pure _
  · exact frames_pure _
  · exact frames_pure _
  · refine (frames_ask _).bind fun path => ?_
    refine (frames_onState _).bind fun _ => ?_
    exact (frames_onState _).bind fun _ => frames_pure _
  · exact frames_throw _

end Locked

namespace World

variable {w w' : World} {action : Action} {id : Nat} {session : Session}

/-- In every session the fids are bound below their roots, and so stand the walks. -/
def Confined (w : World) : Prop :=
  ∀ (id : Nat) (session : Session), w.sessions[id]? = some session → session.Confined w.state

/-- The actions that keep walks below their roots: nothing is created, a push names no qid path of
a node that was taken out, and a walk goes on from a node of the tree. -/
def Sheltered (w : World) : Action → Prop
  | .owner op => op.Calm w.state
  | .create _ _ _ _ => False
  | .advance id _ => ∀ (session : Session) (walk : Walk) (n : Nat),
      w.sessions[id]? = some session → session.call.standing = some (walk, n) →
        w.state.Attached n
  | _ => True

theorem Confined.later (h : w.Confined) (hw : w.Ordered) {s' : State}
    (hnx : w.state.nextId ≤ s'.nextId) (hsl : w.state.Settled s') (id : Nat)
    (session : Session) (hss : w.sessions[id]? = some session) : session.Confined s' :=
  (h id session hss).settled hw.firm.sound hnx hsl

theorem confined_insert {sessions : ExtTreeMap Nat Session} {s : State} {after : Session}
    (h : ∀ (id : Nat) (session : Session), sessions[id]? = some session → session.Confined s)
    (ha : after.Confined s) (i : Nat) (found : Session)
    (hfn : (sessions.insert id after)[i]? = some found) : found.Confined s := by
  rw [get_insert] at hfn
  split at hfn
  · cases hfn
    exact ha
  · exact h i found hfn

section

variable {α : Type} {x : Checked Locked Error α} {after : Result α → Call}
  {gone : State → List Nat} {new : FidBinding → Prop} (h : w.Confined) (hw : w.Ordered)
  (hss : w.sessions[id]? = some session) (hx : Locked.Takes gone x)
  (hf : wp x (fun _ l' => Locked.Rebound ⟨w.state, session.fids⟩ new l') ⟨w.state, session.fids⟩)
  (hn : ∀ binding, new binding → w.state.Inside binding.root binding.node)
include h hw hss hx hf hn

/-- A section after which the call of a session goes on. -/
theorem Confined.holding
    (hc : wp x (fun r l' => (∀ walk n, (after r).standing = some (walk, n) →
      l'.state.Inside walk.binding.root n) ∧ ∀ fid binding, after r ≠ .creating fid binding)
        ⟨w.state, session.fids⟩) : (w.holding id session x after).Confined := by
  have hfl := hw.holding hss hx after
  refine confined_insert (h.later hw hfl.passes.next hfl.settled)
    ⟨fun fid binding hb => ?_, hc.1, hc.2⟩
  have hi : w.state.Inside binding.root binding.node :=
    (hf fid binding hb).elim ((h id session hss).bound fid binding) (hn binding)
  exact hi.settled hw.firm.sound hfl.passes.next hfl.settled

/-- A section at whose end the call is over, or waits for an answer. -/
theorem Confined.ended
    (ha : ∀ r, after r = .idle ∨ ∃ fid path, after r = .removing fid path) :
    (w.holding id session x after).Confined := by
  refine h.holding hw hss hx hf hn ?_
  rcases ha (x.exec ⟨w.state, session.fids⟩).1 with hi | ⟨fid, path, hr⟩
  · unfold wp
    dsimp only
    rw [hi]
    exact ⟨fun _ _ h => (nomatch h), fun _ _ h => nomatch h⟩
  · unfold wp
    dsimp only
    rw [hr]
    exact ⟨fun _ _ h => (nomatch h), fun _ _ h => nomatch h⟩

end

/-- A session whose fids stay goes on with its call. -/
theorem Confined.goesOn (h : w.Confined) (hss : w.sessions[id]? = some session) (call : Call)
    (hc : ∀ walk n, call.standing = some (walk, n) → w.state.Inside walk.binding.root n)
    (hn : ∀ fid binding, call ≠ .creating fid binding) :
    Confined { w with sessions := w.sessions.insert id { session with call := call } } :=
  confined_insert h ⟨(h id session hss).bound, hc, hn⟩

section
variable (h : w.Confined) (hw : w.Ordered) (hss : w.sessions[id]? = some session)
include h hw hss

/-- The next section of a call: the walks stay confined, and one that stands on a node of the tree
goes to a node below its root. -/
theorem Confined.advanced {reply : Reply}
    (hsh : ∀ walk n, session.call.standing = some (walk, n) → w.state.Attached n)
    (hnx : w.advanced id session reply = some w') :
    w'.Confined ∧ ∃ session', w'.sessions[id]? = some session' ∧
      ∀ walk n, session.call.standing = some (walk, n) →
        session'.call.Below w'.state walk.binding := by
  have hs := hw.firm.sound
  have hst := (h id session hss).standing
  have hr : ∀ {root n}, w.state.Attached n → w.state.links.Within root n →
      w.state.Attached root := fun hn hab => hs.single.above hs.rootTop hn hab
  unfold World.advanced at hnx
  split at hnx
  · next walk hc =>
    have hn := hsh walk walk.current (by rw [hc]; rfl)
    have hin := (hst walk walk.current (by rw [hc]; rfl)).within hn
    split at hnx
    · cases hnx
      refine ⟨h.ended hw hss (Locked.balances_bindFid _ _) (Locked.rebound_bindFid _ _ _) ?_
        fun _ => .inl rfl, _, getElem?_insert_self, ?_⟩
      · rintro _ ⟨rfl, _⟩
        exact hs.inside (hr hn hin) hin
      · exact fun _ _ _ => Walk.below_idle _ _
    · next name names hnm =>
      cases hnx
      have hb := Walk.below_look { walk with names := names } hs hin name
      refine ⟨h.goesOn hss _ (hb.inside hs (hr hn hin)) hb.notCreating, _,
        getElem?_insert_self, fun walk' n hwl => ?_⟩
      rw [hc] at hwl
      cases hwl
      exact hb
  · next walk name hc =>
    cases hnx
    have hn := hsh walk walk.current (by rw [hc]; rfl)
    have hin := (hst walk walk.current (by rw [hc]; rfl)).within hn
    have hb := Walk.below_resolve hin name
    refine ⟨h.goesOn hss _ (hb.inside hs (hr hn hin)) hb.notCreating, _,
      getElem?_insert_self, fun walk' n hwl => ?_⟩
    rw [hc] at hwl
    cases hwl
    exact hb
  · next walk name hc =>
    cases hnx
    have hn := hsh walk walk.current (by rw [hc]; rfl)
    have hin := (hst walk walk.current (by rw [hc]; rfl)).within hn
    have hb := Walk.below_await hs hin name reply
    have hk := Locked.takes_onState (walk.keeps_await name reply)
    have ha := hw.holding hss hk fun result => result.toOption.getD .idle
    refine ⟨h.holding hw hss hk
      (Locked.rebound_of_eq (fun _ => False) rfl) (fun _ h => h.elim) ⟨?_, hb.notCreating⟩, _,
      getElem?_insert_self, fun walk' n hwl => ?_⟩
    · obtain ⟨names, hnm⟩ := hr hn hin
      refine hb.inside ha.ordered.firm.sound ⟨names, ha.passes.paths names _ hnm ?_⟩
      exact fun t ht => absurd ht List.not_mem_nil
    · rw [hc] at hwl
      cases hwl
      exact hb
  · next walk child hc =>
    cases hnx
    have hn := hsh walk child (by rw [hc]; rfl)
    have hin := (hst walk child (by rw [hc]; rfl)).within hn
    have hb := Walk.below_enter hin
    refine ⟨h.goesOn hss _ (hb.inside hs (hr hn hin)) hb.notCreating, _,
      getElem?_insert_self, fun walk' n hwl => ?_⟩
    rw [hc] at hwl
    cases hwl
    exact hb
  · cases hnx

theorem Confined.answered {qidPath : Option UInt64}
    (hnx : w.answered id session qidPath = some w') : w'.Confined := by
  have hi := h.goesOn hss .idle (fun _ _ h => nomatch h) fun _ _ h => nomatch h
  unfold World.answered at hnx
  split at hnx
  · next fid binding _ hc =>
    exact absurd hc ((h id session hss).notCreating fid binding)
  · next fid path _ _ =>
    cases hnx
    exact h.ended hw hss (Locked.takes_removed fid path) (Locked.rebound_removed _ fid path)
      (fun _ h => h.elim) fun _ => .inl rfl
  · cases hnx
    exact hi
  · cases hnx
    exact hi
  · cases hnx

end

theorem Confined.next (h : w.Confined) (hw : w.Ordered) (hs : w.Sheltered action)
    (hnx : w.next action = some w') : w'.Confined := by
  cases action with
  | owner op =>
    have hp := hw.passes hnx
    have hsl := hw.settled hnx fun other ho => by
      cases ho
      exact hs
    cases hnx
    exact h.later hw hp.next hsl
  | tree =>
    cases hnx
    refine confined_insert h ⟨fun fid binding hb => ?_, fun _ _ h => (nomatch h),
      fun _ _ h => nomatch h⟩
    rw [ExtTreeMap.getElem?_empty] at hb
    cases hb
  | drop id =>
    obtain ⟨session, hss, hf⟩ := begun_eq_some hnx
    cases hf
    have hc : (w.holding id session Locked.dropped fun _ => .idle).Confined :=
      h.ended hw hss Locked.balances_dropped (Locked.rebound_dropped _) (fun _ h => h.elim)
        fun _ => .inl rfl
    intro i found hfn
    rw [get_erase] at hfn
    split at hfn
    · cases hfn
    · exact hc i found hfn
  | attach id fid uname aname =>
    obtain ⟨session, hss, hf⟩ := begun_eq_some hnx
    cases hf
    refine h.ended hw hss (Locked.balances_attach id fid uname aname)
      (Locked.rebound_attach _ id fid uname aname) ?_ fun _ => .inl rfl
    rintro binding ⟨hr, node, hnd⟩
    exact ⟨(hw.firm.sound.fresh _ node hnd).1, fun _ => hr ▸ Links.Within.refl _ _⟩
  | walk id fid newfid names =>
    obtain ⟨session, hss, hf⟩ := begun_eq_some hnx
    split at hf
    · next binding hb =>
      cases hf
      refine h.goesOn hss _ (fun walk n hst => ?_) fun _ _ h => nomatch h
      cases hst
      exact (h id session hss).bound fid binding hb
    · cases hf
      exact h
  | openFid id fid qid mode =>
    obtain ⟨session, hss, hf⟩ := begun_eq_some hnx
    cases hf
    exact h.ended hw hss (Locked.balances_openFid fid qid mode)
      (Locked.rebound_of_eq (fun _ => False) (Locked.frames_openFid fid qid mode _))
      (fun _ h => h.elim) fun _ => .inl rfl
  | create id fid qid name => exact hs.elim
  | write id fid requestId data =>
    obtain ⟨session, hss, hf⟩ := begun_eq_some hnx
    cases hf
    exact h.ended hw hss (Locked.balances_write fid requestId data)
      (Locked.rebound_of_eq (fun _ => False) (Locked.frames_write fid requestId data _))
      (fun _ h => h.elim) fun _ => .inl rfl
  | clunk id fid =>
    obtain ⟨session, hss, hf⟩ := begun_eq_some hnx
    cases hf
    exact h.ended hw hss (Locked.balances_unbindFid fid) (Locked.rebound_unbindFid _ fid)
      (fun _ h => h.elim) fun _ => .inl rfl
  | remove id fid qid =>
    obtain ⟨session, hss, hf⟩ := begun_eq_some hnx
    cases hf
    refine h.ended hw hss (Locked.balances_removeTarget fid qid)
      (Locked.rebound_of_eq (fun _ => False) (Locked.frames_removeTarget fid qid _))
      (fun _ h => h.elim) fun r => ?_
    cases r with
    | ok path => exact .inr ⟨fid, path, rfl⟩
    | error e => exact .inl rfl
  | advance id reply =>
    obtain ⟨session, hss, hf⟩ := bind_eq_some_iff.mp hnx
    exact (h.advanced hw hss (fun walk n => hs session walk n hss) hf).1
  | answered id qidPath =>
    obtain ⟨session, hss, hf⟩ := bind_eq_some_iff.mp hnx
    exact h.answered hw hss hf

theorem confined_of_run {history : List Action}
    (run : (fronting.restrict World.Sheltered).Run history w) : w.Ordered ∧ w.Confined := by
  refine run.invariant (I := fun _ w => w.Ordered ∧ w.Confined) ?_ ?_
  · rintro w rfl
    refine ⟨ordered_new, fun id session hss => ?_⟩
    cases hss
  · rintro _ w action w' _ ⟨hw, h⟩ ⟨hs, hsp⟩
    exact ⟨hw.next hsp, h.next hw hs hsp⟩

/-- The walk that runs in a session stands on a node. -/
def Stands (w : World) (id : Nat) (walk : Walk) (n : Nat) : Prop :=
  ∃ session, w.sessions[id]? = some session ∧ session.call.standing = some (walk, n)

end World

/-- In every run in which no push puts a node back and walks go on from nodes of the tree, a walk
stands on its root or below it with each of its steps, the step takes it to a node that is the root
or below it, and what it binds in the end is the node on which it stands. -/
theorem walk_confined {history : List Action} {w w' : World} {id n : Nat} {reply : Reply}
    {walk : Walk} (run : (fronting.restrict World.Sheltered).Run history w)
    (stands : w.Stands id walk n)
    (step : (fronting.restrict World.Sheltered).step w (.advance id reply) w') :
    w.state.links.Within walk.binding.root n ∧ (∀ walk' n', w'.Stands id walk' n' →
        walk'.binding = walk.binding ∧ w'.state.links.Within walk.binding.root n') ∧
      (∀ session, w.sessions[id]? = some session → session.call = .looking walk →
        walk.names = [] → ∃ session', w'.sessions[id]? = some session' ∧
          session'.fids[walk.newfid]? = some { walk.binding with node := n }) := by
  obtain ⟨hw, h⟩ := World.confined_of_run run
  obtain ⟨session, hss, hst⟩ := stands
  obtain ⟨hs, hnx⟩ := step
  have hn := hs session walk n hss hst
  obtain ⟨found, hfn, had⟩ := bind_eq_some_iff.mp hnx
  cases hss.symm.trans hfn
  obtain ⟨_, session', hss', hb⟩ := h.advanced hw hss (fun walk n => hs session walk n hss) had
  refine ⟨((h id session hss).standing walk n hst).within hn, ?_, ?_⟩
  · rintro walk' n' ⟨after, ha, hst'⟩
    cases hss'.symm.trans ha
    exact (hb walk n hst).standing walk' n' hst'
  · intro other ho hc hnm
    cases hss.symm.trans ho
    refine ⟨session', hss', ?_⟩
    rw [hc] at hst
    cases hst
    obtain ⟨node, hnd⟩ := hw.firm.sound.exists_of_attached hn
    unfold World.advanced at had
    rw [hc] at had
    dsimp only at had
    rw [hnm] at had
    cases had
    unfold World.holding at hss'
    dsimp only at hss'
    rw [getElem?_insert_self] at hss'
    cases hss'
    rcases Locked.wp_bindFid ⟨w.state, session.fids⟩ walk.newfid
      { walk.binding with node := walk.current } with ⟨_, hf⟩ | ⟨hnn, _⟩
    · dsimp only
      rw [hf]
      exact getElem?_insert_self
    · cases hnd.symm.trans hnn

/-- A principal walks up from its root and then into a directory. -/
def aliceWalks : List Action :=
  [.owner (.set (utf8 "views/bob/secret") (utf8 "s")),
    .owner (.set (utf8 "views/alice/d/x") (utf8 "x")),
    .owner (.setPrincipalClassAname (utf8 "alice") (utf8 "alice") (utf8 "*") (utf8 "views/alice")),
    .tree, .attach 1 1 (utf8 "alice") [], .walk 1 1 2 [utf8 "..", utf8 "d"]]

/-- Where the walk of the first session stands, and its root. -/
def firstStanding (w : World) : Option (Nat × Nat) := do
  let session ← w.sessions[1]?
  let (walk, n) ← session.call.standing
  pure (walk.binding.root, n)

theorem stands_of_firstStanding {w : World} {root n : Nat} (h : firstStanding w = some (root, n)) :
    ∃ walk, w.Stands 1 walk n ∧ walk.binding.root = root := by
  obtain ⟨session, hss, h⟩ := bind_eq_some_iff.mp h
  obtain ⟨⟨walk, n'⟩, hst, h⟩ := bind_eq_some_iff.mp h
  cases h
  exact ⟨walk, ⟨session, hss, hst⟩, rfl⟩

/-- A walk that stands on a node of the tree may go on. -/
theorem step_of_firstStanding {w w' : World} {root n : Nat} (h : firstStanding w = some (root, n))
    (ha : w.state.Attached n) (hnx : w.next (.advance 1 .pending) = some w') :
    (fronting.restrict World.Sheltered).step w (.advance 1 .pending) w' := by
  refine ⟨fun session other m hss hst => ?_, hnx⟩
  obtain ⟨walk, ⟨found, hfn, hst'⟩, _⟩ := stands_of_firstStanding h
  cases hss.symm.trans hfn
  cases hst.symm.trans hst'
  exact ha

theorem walk_confined_aliceWalks : ∃ w w' walk, (fronting.restrict World.Sheltered).Run
      (List.replicate 2 (.advance 1 .pending) ++ aliceWalks.reverse) w ∧ w.Stands 1 walk 4 ∧
    w.next (.advance 1 .pending) = some w' ∧ (∃ walk', w'.Stands 1 walk' 5) ∧
      w'.state.links.Within 4 5 := by
  have hv : ((aliceWalks.foldlM World.next World.new).bind fun w =>
      (w.next (.advance 1 .pending)).bind fun w₁ => (w₁.next (.advance 1 .pending)).bind fun w₂ =>
        (w₂.next (.advance 1 .pending)).map fun w₃ => ([w, w₁, w₂, w₃].map firstStanding,
          [w, w₁, w₂].map fun w => w.state.links.follow ROOT_ID [utf8 "views", utf8 "alice"])) =
      some ([some (4, 4), some (4, 4), some (4, 4), some (4, 5)], [some 4, some 4, some 4]) := by
    decide +kernel
  obtain ⟨w, hw, hv⟩ := bind_eq_some_iff.mp hv
  obtain ⟨w₁, hw₁, hv⟩ := bind_eq_some_iff.mp hv
  obtain ⟨w₂, hw₂, hv⟩ := bind_eq_some_iff.mp hv
  obtain ⟨w₃, hw₃, hv⟩ := map_eq_some_iff.mp hv
  simp only [List.map_cons, List.map_nil, Prod.mk.injEq, List.cons.injEq, and_true] at hv
  obtain ⟨⟨hs, hs₁, hs₂, hs₃⟩, ha, ha₁, ha₂⟩ := hv
  obtain ⟨walk, hst, hr⟩ := stands_of_firstStanding hs₂
  obtain ⟨walk', hst', _⟩ := stands_of_firstStanding hs₃
  have hrn : (fronting.restrict World.Sheltered).Run aliceWalks.reverse w := by
    refine .of_foldlM rfl (fun w action hac w' h => ⟨?_, h⟩) hw
    simp only [aliceWalks, List.mem_cons, List.not_mem_nil, or_false] at hac
    rcases hac with rfl | rfl | rfl | rfl | rfl | rfl <;> exact trivial
  have hrn₂ := (hrn.next (step_of_firstStanding hs ⟨_, ha⟩ hw₁)).next
    (step_of_firstStanding hs₁ ⟨_, ha₁⟩ hw₂)
  refine ⟨w₂, w₃, walk, hrn₂, hst, hw₃, ⟨walk', hst'⟩, ?_⟩
  have hc := ((walk_confined hrn₂ hst (step_of_firstStanding hs₂ ⟨_, ha₂⟩ hw₃)).2.1 walk' 5 hst').2
  rwa [hr] at hc

/-- The file of a principal is pushed. -/
def aliceFile : Action :=
  .owner (.setPushedFile (utf8 "views/alice/d/x") (utf8 "x") ⟨9, 0, 0, 0, 1, [], [], []⟩)

/-- The file is pushed, taken out while the principal holds it, and pushed again; then the
principal walks up from it. -/
def aliceLeaves : List Action :=
  [.owner (.set (utf8 "views/bob/secret") (utf8 "s")), aliceFile,
    .owner (.setPrincipalClassAname (utf8 "alice") (utf8 "alice") (utf8 "*") (utf8 "views/alice")),
    .tree, .attach 1 1 (utf8 "alice") [], .walk 1 1 2 [utf8 "d", utf8 "x"]] ++
  List.replicate 5 (.advance 1 .pending) ++
  [.owner (.removeSubtreeIfExists (utf8 "views/alice")), aliceFile,
    .walk 1 2 3 [utf8 "..", utf8 "..", utf8 "..", utf8 "bob"]] ++
  List.replicate 7 (.advance 1 .pending)

/-- A walk that leaves the root of its fid for the directory of another principal. -/
theorem walk_leaves : ∃ w walk n, fronting.Run aliceLeaves.reverse w ∧ w.Stands 1 walk n ∧
    w.state.lookupPath (utf8 "views/bob") = .ok n ∧ n ≠ walk.binding.root ∧
      ¬ w.state.links.Within walk.binding.root n := by
  have hv : ((aliceLeaves.foldlM World.next World.new).bind fun w =>
      (firstStanding w).map fun standing => (standing, w.state.detachedRoots.contains standing.1,
        (w.state.lookupPath (utf8 "views/bob")).toOption)) = some ((4, 2), true, some 2) := by
    decide +kernel
  obtain ⟨w, hw, hv⟩ := bind_eq_some_iff.mp hv
  obtain ⟨standing, hst, hv⟩ := map_eq_some_iff.mp hv
  obtain ⟨rfl, hd, hp⟩ : standing = (4, 2) ∧
      w.state.detachedRoots.contains standing.1 = true ∧
        (w.state.lookupPath (utf8 "views/bob")).toOption = some 2 := by
    simpa only [Prod.mk.injEq] using hv
  obtain ⟨walk, hs, hr⟩ := stands_of_firstStanding hst
  have hrn : fronting.Run aliceLeaves.reverse w := .of_foldlM rfl (fun _ _ _ _ h => h) hw
  have hl : w.state.lookupPath (utf8 "views/bob") = .ok 2 := by
    cases hfn : w.state.lookupPath (utf8 "views/bob") with
    | error e =>
      rw [hfn] at hp
      cases hp
    | ok n =>
      rw [hfn] at hp
      cases hp
      rfl
  refine ⟨w, walk, 2, hrn, hs, hl, ?_, fun hwt => ?_⟩
  · rw [hr]
    exact nofun
  · rw [hr] at hwt
    exact (World.ordered_of_run hrn).firm.sound.not_attached_of_within
      (ExtTreeSet.contains_iff_mem.mp hd) hwt (attached_of_lookupPath hl)

end R9P.Front
