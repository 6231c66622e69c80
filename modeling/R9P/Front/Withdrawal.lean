import R9P.Front.Structure

/-!
# Attaching to the root of a principal

Library `Front`. The table of principals names the node at which a principal attaches, and a node
that was taken out stays for as long as a fid refers to it. An attach therefore finds a root that
was withdrawn if a fid of an older session still refers to a node below it. Where the subtrees
that are taken out with the root of a principal are referred to by no fid, an attach finds the
node at the registered path, and none once it is withdrawn.
-/

namespace R9P.Front
open Std Base Base.Checked Wire Server State

/-! ### Paths -/

theorem trimMatches_trimMatches (path : Bytes) :
    trimMatches (trimMatches path) = trimMatches path := by
  unfold trimMatches
  -- What is left starts with no slash, as it is the start of a path that does not.
  have hs : ((path.dropWhile (· == SLASH)).rdropWhile (· == SLASH)).dropWhile (· == SLASH) =
      (path.dropWhile (· == SLASH)).rdropWhile (· == SLASH) := by
    cases hr : (path.dropWhile (· == SLASH)).rdropWhile (· == SLASH) with
    | nil => rfl
    | cons first rest =>
      obtain ⟨more, hm⟩ := List.rdropWhile_prefix (· == SLASH) (path.dropWhile (· == SLASH))
      have hf := List.head?_dropWhile_not (· == SLASH) path
      rw [← hm, hr] at hf
      simpa using hf
  rw [hs, List.rdropWhile_idempotent]

theorem pathSegments_canonicalRootPath (path : Bytes) :
    pathSegments (canonicalRootPath path) = pathSegments path := by
  unfold canonicalRootPath
  split
  · next hem =>
    unfold pathSegments
    rw [if_pos hem]
    rfl
  · unfold pathSegments
    rw [trimMatches_trimMatches]

namespace State

variable {s s' : State} {id : Nat} {path uname : Bytes}

/-! ### The registry -/

/-- How a step may change the registry: entries go, and those that come are for principals that
were registered, with the node at their path. -/
structure Reregistered (s : State) (registered : Bytes → Prop) (s' : State) : Prop where
  required : s.principalRootsRequired = true → s'.principalRootsRequired = true
  entries : ∀ (uname : Bytes) (entry : PrincipalRoot), s'.principalRoots[uname]? = some entry →
    s.principalRoots[uname]? = some entry ∨ registered uname ∧
      s'.principalRootsRequired = true ∧
        s.links.follow ROOT_ID (pathSegments entry.rootPath) = some entry.root

theorem Unregistered.reregistered {registered : Bytes → Prop} (h : s.Unregistered s') :
    s.Reregistered registered s' :=
  ⟨fun hr => h.1.trans hr, fun uname entry he => .inl (h.2 uname entry he)⟩

theorem principalEntry_ok {existing : Option PrincipalRoot} {root : Nat}
    {principalId aname rootPath : Bytes} {entry : PrincipalRoot}
    (h : principalEntry existing root principalId aname rootPath = .ok entry) :
    entry.root = root ∧ entry.rootPath = rootPath := by
  unfold principalEntry at h
  split at h
  · split at h
    · cases h
    · next hpt =>
      split at h
      · cases h
      · cases h
        exact ⟨rfl, not_not.mp hpt⟩
  · cases h
    exact ⟨rfl, rfl⟩

theorem reregistered_setPrincipalClassAname (s : State) (uname principalId aname rootPath : Bytes) :
    wp (setPrincipalClassAname uname principalId aname rootPath)
      (fun r s' => s.Reregistered (fun other => other = uname ∧ r = .ok ()) s') s := by
  have hs : ∀ registered, s.Reregistered registered s := fun _ =>
    (unregistered_of_registry rfl).reregistered
  refine wp_refuseIf_bind (fun _ => hs _) fun _ => ?_
  refine wp_refuseIf_bind (fun _ => hs _) fun _ => ?_
  refine wp_ask_bind (fun _ _ => hs _) fun root hrt => ?_
  refine wp_ask_bind (fun _ _ => hs _) fun node _ => ?_
  refine wp_refuseIf_bind (fun _ => hs _) fun _ => ?_
  rw [wp_bind, wp_update]
  dsimp only
  refine wp_ask_bind (fun _ _ => ⟨fun _ => rfl, fun _ _ => .inl⟩) fun entry he => ?_
  rw [wp_update]
  obtain ⟨hat, hpt⟩ := principalEntry_ok he
  refine ⟨fun _ => rfl, fun other found hf => ?_⟩
  dsimp only at hf
  rw [get_insert] at hf
  split at hf
  · next heq =>
    cases hf
    refine .inr ⟨⟨heq.symm, rfl⟩, rfl, ?_⟩
    rw [hpt, hat, pathSegments_canonicalRootPath]
    exact follow_of_lookupPath hrt
  · exact .inl hf

end State

namespace World

variable {w w' : World} {action : Action} {uname : Bytes}

/-- An action that registers a root for a principal. -/
def Registers (w : World) (uname : Bytes) (action : Action) : Prop :=
  ∃ principalId aname rootPath,
    action = .owner (.setPrincipalClassAname uname principalId aname rootPath) ∧
      ((setPrincipalClassAname uname principalId aname rootPath).exec w.state).1 = .ok ()

theorem Registers.removes (h : w.Registers uname action) : w.removes action = [] := by
  obtain ⟨_, _, _, rfl, _⟩ := h
  rfl

theorem Ordered.reregistered (hw : w.Ordered) (h : w.next action = some w') :
    w.state.Reregistered (fun uname => w.Registers uname action) w'.state := by
  by_cases ht : ∀ op, action ≠ .owner op
  · exact (unregistered_of_registry (hw.follows ht h).registry).reregistered
  · obtain ⟨op, hop⟩ := not_forall.mp ht
    cases not_not.mp hop
    cases h
    by_cases hs : op.reregisters = false
    · exact (unregistered_of_registry (op.takes hs w.state hw.firm).2).reregistered
    · cases op with
      | retainSubtreePaths rootPath paths =>
        dsimp only
        rw [OwnerOp.exec_retainSubtreePaths]
        exact (upheld_retainSubtreePaths rootPath paths hw.firm).2.reregistered
      | setPrincipalClassAname uname principalId aname rootPath =>
        have hst := reregistered_setPrincipalClassAname w.state uname principalId aname rootPath
        refine ⟨hst.required, fun other entry he => (hst.entries other entry he).imp id ?_⟩
        rintro ⟨⟨rfl, hok⟩, hr⟩
        exact ⟨⟨principalId, aname, rootPath, rfl, hok⟩, hr⟩
      | retainPrincipalRoots unames => exact (unregistered_filter w.state _).reregistered
      | _ => exact absurd rfl hs

/-- The roots in the registry: each is at its path, or gone. -/
def Registered (w : World) : Prop :=
  ∀ (uname : Bytes) (entry : PrincipalRoot), w.state.principalRoots[uname]? = some entry →
    w.state.principalRootsRequired = true ∧ entry.root < w.state.nextId ∧
      (w.state.nodes[entry.root]? = none ∨
        w.state.links.follow ROOT_ID (pathSegments entry.rootPath) = some entry.root)

/-- Where an action takes the root of a principal out, no fid refers to a node of the subtree that
it takes out. -/
def ClearOf (w : World) (action : Action) : Prop :=
  ∀ t ∈ w.removes action, ∀ (uname : Bytes) (entry : PrincipalRoot),
    w.state.principalRoots[uname]? = some entry → w.state.links.Within t entry.root →
      ¬ w.state.Referred t

theorem Registered.next (hrg : w.Registered) (hw : w.Ordered) (hc : w.ClearOf action)
    (h : w.next action = some w') : w'.Registered := by
  intro uname entry he
  have hp := hw.passes h
  rcases (hw.reregistered h).entries uname entry he with ho | ⟨hnw, hr, hpt⟩
  · obtain ⟨hr, hlt, hat⟩ := hrg uname entry ho
    refine ⟨(hw.reregistered h).required hr, hlt.trans_le hp.next, ?_⟩
    rcases hat with hg | hpt
    · exact .inl (hp.missing entry.root hlt hg)
    · by_cases hot : ∃ t ∈ w.removes action, w.state.links.Within t entry.root
      · obtain ⟨t, ht, hwt⟩ := hot
        exact .inl (hp.freed t ht (hc t ht uname entry ho hwt) _ hlt hwt)
      · exact .inr (hp.paths _ _ hpt fun t ht hwt => hot ⟨t, ht, hwt⟩)
  · obtain ⟨node, hn⟩ := hw.firm.sound.exists_of_attached ⟨_, hpt⟩
    refine ⟨hr, ((hw.firm.sound.fresh _ node hn).1).trans_le hp.next,
      .inr (hp.paths _ _ hpt fun t ht => ?_)⟩
    rw [hnw.removes] at ht
    cases ht

theorem registered_of_run {history : List Action}
    (run : (fronting.restrict World.ClearOf).Run history w) : w.Ordered ∧ w.Registered := by
  refine run.invariant (I := fun _ w => w.Ordered ∧ w.Registered) ?_ ?_
  · rintro w rfl
    refine ⟨ordered_new, fun uname entry he => ?_⟩
    cases he
  · rintro _ w action w' _ ⟨hw, hrg⟩ ⟨hc, hst⟩
    exact ⟨hw.next hst, hrg.next hw hc hst⟩

/-- A principal that cannot attach: its root is gone. -/
def Withdrawn (w : World) (uname : Bytes) : Prop :=
  w.state.principalRootsRequired = true ∧
    ∀ entry : PrincipalRoot, w.state.principalRoots[uname]? = some entry →
      entry.root < w.state.nextId ∧ w.state.nodes[entry.root]? = none

theorem Withdrawn.next (hg : w.Withdrawn uname) (hw : w.Ordered)
    (hn : ¬ w.Registers uname action) (h : w.next action = some w') : w'.Withdrawn uname := by
  have hp := hw.passes h
  refine ⟨(hw.reregistered h).required hg.1, fun entry he => ?_⟩
  rcases (hw.reregistered h).entries uname entry he with ho | ⟨hnw, _⟩
  · obtain ⟨hlt, hnn⟩ := hg.2 entry ho
    exact ⟨hlt.trans_le hp.next, hp.missing entry.root hlt hnn⟩
  · exact absurd hnw hn

/-- The step that takes the root of a principal out. -/
theorem Registered.withdrawn {entry : PrincipalRoot} {t : Nat} (hrg : w.Registered)
    (hw : w.Ordered) (hc : w.ClearOf action) (h : w.next action = some w')
    (ht : t ∈ w.removes action) (he : w.state.principalRoots[uname]? = some entry)
    (hwt : w.state.links.Within t entry.root) : w'.Withdrawn uname := by
  obtain ⟨hr, hlt, _⟩ := hrg uname entry he
  have hp := hw.passes h
  refine ⟨(hw.reregistered h).required hr, fun entry' he' => ?_⟩
  rcases (hw.reregistered h).entries uname entry' he' with ho | ⟨hnw, _⟩
  · cases he.symm.trans ho
    exact ⟨hlt.trans_le hp.next,
      hp.freed t ht (hc t ht uname entry he hwt) _ hlt hwt⟩
  · rw [hnw.removes] at ht
    cases ht

theorem withdrawn_of_run {later : List Action} {w₁ w₂ : World} (hw : w₁.Ordered)
    (hg : w₁.Withdrawn uname) (run : ((fronting.restrict fun w action => w.ClearOf action ∧
      ¬ w.Registers uname action).startingAt w₁).Run later w₂) : w₂.Withdrawn uname := by
  refine (run.invariant (I := fun _ w => w.Ordered ∧ w.Withdrawn uname) ?_ ?_).2
  · rintro w rfl
    exact ⟨hw, hg⟩
  · rintro _ w action w' _ ⟨hw, hg⟩ ⟨⟨_, hn⟩, hst⟩
    exact ⟨hw.next hst, hg.next hw hn hst⟩

end World

/-! ### Attaching -/

namespace Locked

variable {l : Locked} {sessionId : Nat} {fid : Fid} {uname aname : Bytes}

theorem attachRootFor_ok {s : State} {root : Nat} (h : s.attachRootFor uname aname = .ok root) :
    (s.principalRootsRequired = false ∧ root = ROOT_ID) ∨
      ∃ entry, s.principalRoots[uname]? = some entry ∧ entry.root = root := by
  unfold attachRootFor at h
  split at h
  · next hr =>
    cases h
    exact .inl ⟨by simpa using hr, rfl⟩
  · obtain ⟨entry, he, h⟩ := bind_ok.mp h
    refine .inr ⟨entry, okOr_ok he, ?_⟩
    split at h
    · cases h
      rfl
    · cases h

/-- What an attach binds, when it succeeds. -/
theorem attach_ok (l : Locked) (sessionId : Nat) (fid : Fid) (uname aname : Bytes) :
    wp (attach sessionId fid uname aname) (fun r l' => ∀ qid, r = .ok qid →
      ∃ root node, l.state.attachRootFor uname aname = .ok root ∧ l.state.nodes[root]? = some node ∧
          ∃ binding, l'.fids[fid]? = some binding ∧ binding.node = root) l := by
  refine wp_ask_bind (fun _ _ _ h => nomatch h) fun root hrt => ?_
  refine wp_ask_bind (fun _ _ _ h => nomatch h) fun principalId _ => ?_
  refine wp_ask_bind (fun _ _ _ h => nomatch h) fun qid hq => ?_
  obtain ⟨node, hn, _⟩ := bind_ok.mp hq
  rw [wp_bind]
  refine (wp_bindFid l fid _).mono fun r l' hb => ?_
  match r with
  | .error e => exact fun _ h => nomatch h
  | .ok () =>
    rcases hb with ⟨_, hf⟩ | ⟨hnn, _⟩
    · exact fun _ _ => ⟨root, node, hrt, node_ok hn, _, hf ▸ ExtTreeMap.getElem?_insert_self, rfl⟩
    · cases (node_ok hn).symm.trans hnn

end Locked

/-- Whether an attach succeeds, and what it leaves. -/
def World.attached (w : World) (id : Nat) (session : Session) (fid : Fid) (uname aname : Bytes) :
    Result Qid × Locked :=
  (Locked.attach id fid uname aname).exec ⟨w.state, session.fids⟩

/-- Where no fid refers to a node of the subtree with which the root of a principal is taken out,
an attach that succeeds binds the node at the registered path; and a principal whose root was
taken out cannot attach until a root is registered for it again. -/
theorem attach_registered {history : List Action} {w : World}
    (run : (fronting.restrict World.ClearOf).Run history w) :
    (∀ (id : Nat) (session : Session) (fid : Fid) (uname aname : Bytes) (qid : Qid),
      w.sessions[id]? = some session → (w.attached id session fid uname aname).1 = .ok qid →
        ∃ binding, (w.attached id session fid uname aname).2.fids[fid]? = some binding ∧
          (w.attached id session fid uname aname).2.state.Attached binding.node ∧
          (w.state.principalRootsRequired = true →
            ∃ entry, w.state.principalRoots[uname]? = some entry) ∧
          ∀ entry : PrincipalRoot, w.state.principalRoots[uname]? = some entry →
            (w.attached id session fid uname aname).2.state.links.follow ROOT_ID
              (pathSegments entry.rootPath) = some binding.node) ∧
    (∀ (action : Action) (w₁ : World) (uname : Bytes) (entry : PrincipalRoot) (t : Nat),
      (fronting.restrict World.ClearOf).step w action w₁ → t ∈ w.removes action →
        w.state.principalRoots[uname]? = some entry → w.state.links.Within t entry.root →
          ∀ (later : List Action) (w₂ : World),
            ((fronting.restrict fun w action => w.ClearOf action ∧
              ¬ w.Registers uname action).startingAt w₁).Run later w₂ →
              ∀ (id : Nat) (session : Session) (fid : Fid) (aname : Bytes) (qid : Qid),
                (w₂.attached id session fid uname aname).1 ≠ .ok qid) := by
  obtain ⟨hw, hrg⟩ := World.registered_of_run run
  refine ⟨fun id session fid uname aname qid hs hok => ?_, ?_⟩
  · obtain ⟨root, node, hrt, hn, binding, hb, rfl⟩ :=
      Locked.attach_ok ⟨w.state, session.fids⟩ id fid uname aname qid hok
    have hp := (Locked.balances_attach id fid uname aname _ (hw.sane hs)).passes
    have hpt : ∀ entry : PrincipalRoot, w.state.principalRoots[uname]? = some entry →
        entry.root = binding.node → w.state.links.follow ROOT_ID
          (pathSegments entry.rootPath) = some binding.node := by
      intro entry he hat
      rcases (hrg uname entry he).2.2 with hnn | hpt
      · rw [hat, hn] at hnn
        cases hnn
      · rwa [hat] at hpt
    refine ⟨binding, hb, ?_⟩
    rcases Locked.attachRootFor_ok hrt with ⟨hr, hat⟩ | ⟨entry, he, hat⟩
    · rw [hat]
      refine ⟨Links.Within.refl _ ROOT_ID, fun h => ?_, fun entry he => ?_⟩
      · rw [show w.state.principalRootsRequired = false from hr] at h
        cases h
      · have hbt := (hrg uname entry he).1
        rw [show w.state.principalRootsRequired = false from hr] at hbt
        cases hbt
    · have ha := hp.paths _ _ (hpt entry he hat) fun t ht =>
        absurd ht List.not_mem_nil
      refine ⟨⟨_, ha⟩, fun _ => ⟨entry, he⟩, fun other ho => ?_⟩
      cases ho.symm.trans he
      exact ha
  · rintro action w₁ uname entry t ⟨hc, hst⟩ ht he hwt later w₂ hl
    have hg := World.withdrawn_of_run (hw.next hst)
      (hrg.withdrawn hw hc hst ht he hwt) hl
    intro id session fid aname qid hok
    obtain ⟨root, node, hrt, hn, _⟩ :=
      Locked.attach_ok ⟨w₂.state, session.fids⟩ id fid uname aname qid hok
    rcases Locked.attachRootFor_ok hrt with ⟨hr, _⟩ | ⟨entry', he', rfl⟩
    · exact Bool.false_ne_true (hr.symm.trans hg.1)
    · cases hn.symm.trans (hg.2 entry' he').2

/-- A principal with a root and a file below it. -/
def aliceRegistered : List Action :=
  [.owner (.set (utf8 "views/alice/x") (utf8 "x")),
    .owner (.setPrincipalClassAname (utf8 "alice") (utf8 "alice") (utf8 "*") (utf8 "views/alice")),
    .tree]

/-- What is there before the root is taken out: the root, the subtree that goes, and whether fids
refer to nodes. -/
def aliceRoot (w : World) : Option (Nat × List Nat × Bool) :=
  (w.state.principalRoots[utf8 "alice"]?).map fun entry =>
    (entry.root, w.removes (.owner (.removeSubtreeIfExists (utf8 "views/alice"))),
      w.state.fidReferences.isEmpty)

theorem attach_registered_aliceRegistered : ∃ w w₁,
    (fronting.restrict World.ClearOf).Run aliceRegistered.reverse w ∧
      w.next (.owner (.removeSubtreeIfExists (utf8 "views/alice"))) = some w₁ ∧
        ∀ (id : Nat) (session : Session) (fid : Fid) (aname : Bytes) (qid : Qid),
          (w₁.attached id session fid (utf8 "alice") aname).1 ≠ .ok qid := by
  have hv : (aliceRegistered.foldlM World.next World.new).bind aliceRoot =
      some (2, [2], true) := by decide +kernel
  obtain ⟨w, hw, hv⟩ := Option.bind_eq_some_iff.mp hv
  obtain ⟨entry, he, hv⟩ := Option.map_eq_some_iff.mp hv
  obtain ⟨hrt, hr, hem⟩ : entry.root = 2 ∧
      w.removes (.owner (.removeSubtreeIfExists (utf8 "views/alice"))) = [2] ∧
        w.state.fidReferences.isEmpty = true := by
    simpa only [Prod.mk.injEq] using hv
  have hrn : (fronting.restrict World.ClearOf).Run aliceRegistered.reverse w := by
    refine .of_foldlM rfl (fun w action ha w' h => ⟨fun t ht => ?_, h⟩) hw
    simp only [aliceRegistered, List.mem_cons, List.not_mem_nil, or_false] at ha
    rcases ha with rfl | rfl | rfl <;> cases ht
  refine ⟨w, _, hrn, rfl, ?_⟩
  refine (attach_registered hrn).2 (.owner (.removeSubtreeIfExists (utf8 "views/alice"))) _
    (utf8 "alice") entry 2 ⟨?_, rfl⟩ ?_ he ?_ [] _ (.start rfl)
  · rintro t _ uname found _ _ ⟨i, _, hi⟩
    rw [ExtTreeMap.isEmpty_iff.mp hem] at hi
    exact absurd hi ExtTreeMap.not_mem_empty
  · rw [hr]
    exact List.mem_singleton.mpr rfl
  · rw [hrt]
    exact Links.Within.refl _ 2

/-- The root of the principal is taken out between two sessions of it. -/
def aliceWithdrawn : List Action :=
  aliceRegistered ++ [.attach 1 1 (utf8 "alice") [],
    .owner (.removeSubtreeIfExists (utf8 "views/alice")), .tree]

/-- The outcome of an attach for the principal: the node it binds, if that was taken out. -/
def aliceAttached (w : World) (id : Nat) : Option Nat := do
  let session ← w.sessions[id]?
  let _ ← (w.attached id session 1 (utf8 "alice") []).1.toOption
  let binding ← (w.attached id session 1 (utf8 "alice") []).2.fids[(1 : Fid)]?
  if (w.attached id session 1 (utf8 "alice") []).2.state.detachedRoots.contains binding.node then
    some binding.node
  else none

/-- While an older session refers to the root of a principal that was taken out, a new one
attaches to it. -/
theorem attach_withdrawn : ∃ w session qid binding, fronting.Run aliceWithdrawn.reverse w ∧
    w.sessions[2]? = some session ∧ (w.attached 2 session 1 (utf8 "alice") []).1 = .ok qid ∧
      (w.attached 2 session 1 (utf8 "alice") []).2.fids[(1 : Fid)]? = some binding ∧
        ¬ (w.attached 2 session 1 (utf8 "alice") []).2.state.Attached binding.node := by
  have hv : ((aliceWithdrawn.foldlM World.next World.new).bind fun w => aliceAttached w 2) =
      some 2 := by decide +kernel
  obtain ⟨w, hw, hv⟩ := Option.bind_eq_some_iff.mp hv
  obtain ⟨session, hs, hv⟩ := Option.bind_eq_some_iff.mp hv
  obtain ⟨qid, hq, hv⟩ := Option.bind_eq_some_iff.mp hv
  obtain ⟨binding, hb, hv⟩ := Option.bind_eq_some_iff.mp hv
  have hrn : fronting.Run aliceWithdrawn.reverse w := .of_foldlM rfl (fun _ _ _ _ h => h) hw
  have hsn := (World.ordered_of_run hrn).sane hs
  have ha := (Locked.balances_attach 2 1 (utf8 "alice") [] _ hsn).firm.sound
  refine ⟨w, session, qid, binding, hrn, hs, ?_, hb, ?_⟩
  · cases hr : (w.attached 2 session 1 (utf8 "alice") []).1 with
    | error e =>
      rw [hr] at hq
      cases hq
    | ok found =>
      rw [hr] at hq
      cases hq
      rfl
  · split at hv
    · next hd =>
      exact ha.not_attached_of_within (ExtTreeSet.contains_iff_mem.mp hd) (Links.Within.refl _ _)
    · cases hv

end R9P.Front
