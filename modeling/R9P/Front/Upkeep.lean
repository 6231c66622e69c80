import R9P.Front.Growth

/-!
# Keeping the tables of a front

Library `Front`. Every operation of an owner leaves tables that agree with each other, in which
each subtree that was taken out has a node to which a fid refers, and changes no count of
references. The operations that move nodes and take them out are the hard ones.
-/

namespace R9P.Front
open Std Base Base.Checked Wire Server
open List (mem_cons_of_mem mem_cons_self mem_singleton not_mem_nil)

namespace State

variable {s s' : State} {id i p c d parent : Nat} {n name : Bytes} {node : Node}
  {stale : List (Nat × Bytes × Nat)} {gone : List Nat} {bodyMatches : Body → Bool} {path : Bytes}
  {s'' : State} {settle : Body → Body} {α : Type}

/-- The tables agree, and nothing unreachable is kept without a reference. -/
structure Firm (s : State) : Prop where
  sound : s.Sound
  held : s.Held

/-- A change of who may attach. -/
theorem Firm.reregister (hs : s.Firm) (principalRoots : ExtTreeMap Bytes PrincipalRoot)
    (required : Bool) :
    Firm { s with principalRoots := principalRoots, principalRootsRequired := required } :=
  ⟨⟨hs.sound.root, hs.sound.rootKept, hs.sound.fresh, hs.sound.indexed, hs.sound.listed,
    hs.sound.detached, hs.sound.covered, hs.sound.referenced⟩, hs.held⟩

/-- What becomes of the paths and the ids when a step takes subtrees out: paths of the tree stay,
unless they lead into one of those subtrees; ids are not used again; and a subtree that is taken
out goes if no fid refers to a node of it. -/
structure Passes (s : State) (gone : List Nat) (s' : State) : Prop where
  next : s.nextId ≤ s'.nextId
  paths : ∀ names i, s.links.follow ROOT_ID names = some i →
    (∀ t ∈ gone, ¬ s.links.Within t i) → s'.links.follow ROOT_ID names = some i
  missing : ∀ i < s.nextId, s.nodes[i]? = none → s'.nodes[i]? = none
  freed : ∀ t ∈ gone, ¬ s.Referred t → ∀ i < s.nextId, s.links.Within t i → s'.nodes[i]? = none

namespace Passes

/-- A step that takes nothing out. -/
theorem of_none (hnx : s.nextId ≤ s'.nextId)
    (hp : ∀ names i, s.links.follow ROOT_ID names = some i → s'.links.follow ROOT_ID names = some i)
    (hm : ∀ i < s.nextId, s.nodes[i]? = none → s'.nodes[i]? = none) : s.Passes [] s' :=
  ⟨hnx, fun names i hi _ => hp names i hi, hm, fun _ ht => absurd ht not_mem_nil⟩

theorem refl (s : State) : s.Passes [] s :=
  of_none le_rfl (fun _ _ hi => hi) fun _ _ hn => hn

theorem trans (h : s.Passes gone s') (h' : s'.Passes [] s'') :
    s.Passes gone s'' :=
  ⟨h.next.trans h'.next, fun names i hi ho => h'.paths names i (h.paths names i hi ho) fun _ ht =>
      absurd ht not_mem_nil,
    fun i hlt hn => h'.missing i (hlt.trans_le h.next) (h.missing i hlt hn),
    fun t ht hnt i hlt hi => h'.missing i (hlt.trans_le h.next) (h.freed t ht hnt i hlt hi)⟩

end Passes

/-- No node that was there has got a new place. -/
def Settled (s s' : State) : Prop :=
  ∀ p n c, s'.links p n = some c → c < s.nextId → s.links p n = some c

/-- What an operation of an owner does to a state: the tables stay in order, no count of
references changes, nothing but the subtrees that it takes out is lost, and no node gets a new
place if the state is calm. -/
structure Upheld (s : State) (gone : List Nat) (calm : Prop) (s' : State) : Prop where
  firm : s'.Firm
  references : s'.fidReferences = s.fidReferences
  passes : s.Passes gone s'
  settled : calm → s.Settled s'

theorem Grows.firm (h : s.Grows s') (hs : s.Firm) : s'.Firm := ⟨h.sound, h.held hs.held⟩

/-- The link to a node that was there before was there, and leads from a node that was. -/
theorem Settled.back (h : s.Settled s') (hs : s.Sound) (p : Nat) (n : Bytes) (c : Nat)
    (hl : s'.links p n = some c) (hlt : c < s.nextId) :
    s.links p n = some c ∧ p < s.nextId := by
  have hb := h p n c hl hlt
  obtain ⟨directory, hdr, _⟩ := links_eq_some.mp hb
  exact ⟨hb, (hs.fresh p directory hdr).1⟩

theorem Settled.trans (h : s.Settled s') (h' : s'.Settled s'')
    (hnx : s.nextId ≤ s'.nextId) : s.Settled s'' := fun p n c hl hlt =>
  h p n c (h' p n c hl (hlt.trans_le hnx)) hlt

section Upheld

variable {calm : Prop}

theorem Grows.upheld (h : s.Grows s') (hs : s.Firm) : s.Upheld [] calm s' := by
  refine ⟨h.firm hs, h.references, .of_none h.next (fun names i hi => Links.follow_mono hi h.links)
    fun i hlt hn => ?_, fun _ _ _ _ => h.settled hs.sound⟩
  cases hnode : s'.nodes[i]? with
  | none => rfl
  | some node' =>
    obtain ⟨node, hnode⟩ := h.back i node' hnode hlt
    rw [hn] at hnode
    cases hnode

namespace Upheld

theorem refl (hs : s.Firm) : s.Upheld [] calm s :=
  ⟨hs, rfl, .refl s, fun _ _ _ _ hl _ => hl⟩

theorem trans (h : s.Upheld gone calm s')
    (h' : s'.Upheld [] calm s'') : s.Upheld gone calm s'' :=
  ⟨h'.firm, h'.references.trans h.references, h.passes.trans h'.passes, fun hc =>
    (h.settled hc).trans (h'.settled hc) h.passes.next⟩

theorem imp {calm' : Prop} (h : s.Upheld gone calm s')
    (hc : calm' → calm) : s.Upheld gone calm' s' :=
  ⟨h.firm, h.references, h.passes, fun h' => h.settled (hc h')⟩

theorem reregister (hs : s.Firm) (principalRoots : ExtTreeMap Bytes PrincipalRoot)
    (required : Bool) : s.Upheld [] calm
      { s with principalRoots := principalRoots, principalRootsRequired := required } :=
  ⟨hs.reregister principalRoots required, rfl, .of_none le_rfl (fun _ _ hi => hi) fun _ _ hn =>
    hn, fun _ _ _ _ hl _ => hl⟩

end Upheld

end Upheld

/-- Such an operation that lets the registry be. -/
def Took (s : State) (gone : List Nat) (calm : Prop) {α : Type} (_ : Result α) (s' : State) :
    Prop := s.Upheld gone calm s' ∧ s'.registry = s.registry

section Took

variable {α β : Type} {calm : Prop} {P : α → State → Prop} {r : Result α}

theorem Took.refl (hs : s.Firm) (r : Result α) : s.Took [] calm r s := ⟨.refl hs, rfl⟩

theorem Took.trans {r' : Result β}
    (h : s.Took gone calm r s') (h' : s'.Took [] calm r' s'') : s.Took gone calm r' s'' :=
  ⟨h.1.trans h'.1, h'.2.trans h.2⟩

theorem Took.imp {calm' : Prop} (h : s.Took gone calm r s')
    (hc : calm' → calm) : s.Took gone calm' r s' := ⟨h.1.imp hc, h.2⟩

theorem Grown.took (h : s.Grown P r s') (hs : s.Firm) :
    s.Took [] calm r s' := ⟨h.1.upheld hs, h.1.registry⟩

/-- Behind a first part that publishes. -/
theorem took_bind {x : Checked State Error α}
    {f : α → Checked State Error β} (hs : s.Firm) (hx : wp x (Grown s P) s)
    (hf : ∀ a s', s.Grows s' → s'.Firm → P a s' → wp (f a) (s'.Took [] calm) s') :
    wp (x >>= f) (s.Took [] calm) s := by
  rw [wp_bind]
  refine hx.mono fun r s' h => ?_
  cases r with
  | error e => exact h.took hs
  | ok a => exact (hf a s' h.1 (h.1.firm hs) (h.2 a rfl)).mono fun _ _ => (h.took hs).trans

/-- Behind a check. -/
theorem took_ask_bind (hs : s.Firm) {g : State → Result α} {f : α → Checked State Error β}
    (hf : ∀ a, g s = .ok a → wp (f a) (s.Took [] calm) s) :
    wp (.ask g >>= f) (s.Took [] calm) s :=
  wp_ask_bind (fun _ _ => .refl hs _) hf

theorem took_refuseIf_bind (hs : s.Firm) {condition : Bool} {e : Error}
    {f : Unit → Checked State Error β} (hf : condition = false → wp (f ()) (s.Took [] calm) s) :
    wp (.refuseIf condition e >>= f) (s.Took [] calm) s :=
  wp_refuseIf_bind (fun _ => .refl hs _) hf

end Took

/-- A computation that takes no subtrees out but those that are given, and gives no node a new
place if the state is calm. -/
def Takes {α : Type} (gone : State → List Nat) (calm : State → Prop)
    (x : Checked State Error α) : Prop :=
  ∀ s : State, s.Firm → wp x (s.Took (gone s) (calm s)) s

/-- A computation that takes nothing out and gives no node a new place. -/
abbrev Keeps {α : Type} (x : Checked State Error α) : Prop := Takes (fun _ => []) (fun _ => True) x

theorem Publishes.keeps {x : Checked State Error α} (h : Publishes x) : Keeps x :=
  fun s hs => (h s hs.sound).mono fun _ _ h => h.took hs

theorem Takes.bind {α β : Type} {gone : State → List Nat} {calm : State → Prop}
    {x : Checked State Error α} {f : α → Checked State Error β} (hx : Takes gone calm x)
    (hf : ∀ a, Keeps (f a)) : Takes gone calm (x >>= f) := by
  intro s hs
  rw [wp_bind]
  refine (hx s hs).mono fun r s' h => ?_
  cases r with
  | error e => exact h
  | ok a => exact (hf a s' h.1.firm).mono fun _ _ h' => h.trans (h'.imp fun _ => trivial)

/-! ### Moving a node -/

theorem Sound.within_of_detachedFrom (hs : s.Sound) (fuel : Nat) : ∀ current,
    s.detachedFrom fuel current = true → ∃ d ∈ s.detachedRoots, s.links.Within d current := by
  induction fuel with
  | zero =>
    intro current h
    cases h
  | succ fuel ih =>
    intro current h
    by_cases hd : current ∈ s.detachedRoots
    · exact ⟨current, hd, .refl s.links current⟩
    · unfold detachedFrom at h
      rw [Bool.or_eq_true_iff, ExtTreeSet.contains_iff_mem, or_iff_right hd] at h
      split at h
      · next node hnode =>
        obtain ⟨hp, h⟩ := Bool.and_eq_true_iff.mp h
        have ht : ¬ s.IsTop current := by
          rintro (rfl | ht)
          · obtain ⟨root, hr, hsl, _⟩ := hs.root
            cases hnode.symm.trans hr
            exact of_decide_eq_true hp hsl
          · exact hd ht
        obtain ⟨d, hd, hwithin⟩ := ih node.parent h
        exact ⟨d, hd, hwithin.child (hs.linked hnode ht)⟩
      · cases h

section Move

variable (hs : s.Sound) (hnode : s.nodes[id]? = some node) (hd : d ∈ s.detachedRoots)
  (hwithin : s.links.Within d id)

include hs hnode hd hwithin

/-- A node that moves is first made a top, unless it is one. -/
theorem moveNode_eq : s.moveNode id node parent name =
    (if id ∈ s.detachedRoots then s else s.cut node.parent node.name id).graft id parent name := by
  by_cases hid : id ∈ s.detachedRoots
  · have hu : s.unlinkNode id node = s := by
      unfold unlinkNode
      split
      · next old ho =>
        refine if_neg fun hl => hs.top_of_isTop (.inr hid) node.parent node.name ?_
        exact (links_of_node ho).trans hl
      · rfl
    rw [if_pos hid, moveNode, hu]
    rfl
  · have ht : ¬ s.IsTop id := by
      rintro (rfl | ht)
      · exact hs.not_attached_of_within hd hwithin (.refl s.links ROOT_ID)
      · exact hid ht
    obtain ⟨old, ho, hl⟩ := links_eq_some.mp (hs.linked hnode ht)
    have hu : s.unlinkNode id node = s.unlinkChild node.parent node.name := by
      unfold unlinkNode
      rw [ho]
      exact if_pos hl
    have hst : (s.cut node.parent node.name id).detachedRoots.erase id =
        s.detachedRoots.erase id := by
      apply ExtTreeSet.ext_mem
      intro i
      show i ∈ (s.detachedRoots.insert id).erase id ↔ _
      rw [mem_set_erase_eq, mem_set_erase_eq, mem_set_insert_eq]
      exact and_congr_right fun hne => or_iff_right hne
    rw [if_neg hid, moveNode, hu, graft, hst]
    rfl

end Move

/-- What becomes of the tables when a node of a subtree that was taken out goes back into the
tree: the node keeps its kind, and the tree keeps its paths. -/
structure Moved (s : State) (id : Nat) (node : Node) (s' : State) : Prop where
  sound : s'.Sound
  attached : s'.Attached id
  kept : ∃ node', s'.nodes[id]? = some node' ∧ node'.body.isDir = node.body.isDir
  paths : ∀ names i, s.links.follow ROOT_ID names = some i →
    s'.links.follow ROOT_ID names = some i
  missing : ∀ i : Nat, s.nodes[i]? = none → s'.nodes[i]? = none

theorem Sound.moved_graft (hs : s.Sound) (hnode : s.nodes[id]? = some node)
    (hid : id ∈ s.detachedRoots) (hp : s.Attached parent) (hdi : s.DirAt parent)
    (hn : s.links parent name = none) : s.Moved id node (s.graft id parent name) := by
  refine ⟨hs.graft hid hp hdi hn, attached_graft hs hid hp hdi hn, ?_,
    fun names i hi => Links.follow_mono hi fun _ _ _ => links_graft_of hs hid hp hdi hn,
    fun i hi => ?_⟩
  · obtain ⟨node', hnode', ⟨_, _, hd⟩, _⟩ := rel_forward (nodes_graft s id parent name id)
      { node with parent := parent, name := name } (by rw [if_pos rfl, hnode]; rfl)
    exact ⟨node', hnode', hd⟩
  · refine rel_none (nodes_graft s id parent name i) ?_
    rw [hi]
    split <;> rfl

theorem Sound.moveNode (hs : s.Sound) (hnode : s.nodes[id]? = some node)
    (hd : d ∈ s.detachedRoots) (hwithin : s.links.Within d id) (hp : s.Attached parent)
    (hdi : s.DirAt parent) (hn : s.links parent name = none) :
    s.Moved id node (s.moveNode id node parent name) := by
  rw [moveNode_eq hs hnode hd hwithin]
  by_cases hid : id ∈ s.detachedRoots
  · rw [if_pos hid]
    exact hs.moved_graft hnode hid hp hdi hn
  · rw [if_neg hid]
    have ho : ∀ {i}, s.Attached i → ¬ s.links.Within id i := fun hi h =>
      hs.not_attached_of_within hd (hwithin.trans h) hi
    have hl := hs.linked hnode (by
      rintro (rfl | ht)
      · exact ho (.refl s.links ROOT_ID) (.refl s.links ROOT_ID)
      · exact hid ht)
    have hpr : (s.cut node.parent node.name id).Attached parent :=
      (within_cut hl hp).resolve_right fun h => ho hp (within_of_cut h)
    have hdt : (s.cut node.parent node.name id).DirAt parent := by
      obtain ⟨directory, hdr, hdi⟩ := hdi
      obtain ⟨directory', hdr', ⟨_, _, hd'⟩, _⟩ :=
        rel_forward (nodes_unlinkChild parent) directory hdr
      exact ⟨directory', hdr', hd'.trans hdi⟩
    have hnm : (s.cut node.parent node.name id).links parent name = none := by
      rw [links_cut]
      split
      · rfl
      · exact hn
    obtain ⟨found, hfn, ⟨_, _, hk⟩, _⟩ := rel_forward (nodes_unlinkChild id) node hnode
    have hm := (hs.cut hl).moved_graft hfn (mem_set_insert_eq.mpr (.inl rfl))
      hpr hdt hnm
    refine ⟨hm.sound, hm.attached, ?_, fun names i hi => hm.paths names i ?_,
      fun i hi => hm.missing i (rel_none (nodes_unlinkChild i) hi)⟩
    · obtain ⟨node', hnode', hd'⟩ := hm.kept
      exact ⟨node', hnode', hd'.trans hk⟩
    · exact Links.follow_avoid hi (fun _ _ _ => links_cut_or hl) (ho ⟨names, hi⟩)

/-- The move touches neither references nor registry nor the next id. -/
theorem untouched_moveNode (s : State) (id : Nat) (node : Node) (parent : Nat) (name : Bytes) :
    (s.moveNode id node parent name).fidReferences = s.fidReferences ∧
      (s.moveNode id node parent name).registry = s.registry ∧
        (s.moveNode id node parent name).nextId = s.nextId := by
  show (s.unlinkNode id node).fidReferences = _ ∧ (s.unlinkNode id node).registry = _ ∧
    (s.unlinkNode id node).nextId = _
  unfold unlinkNode
  split
  · split <;> exact ⟨rfl, rfl, rfl⟩
  · exact ⟨rfl, rfl, rfl⟩

theorem mayReattach_ok {u : Unit}
    (h : s.mayReattach id path bodyMatches = .ok u) :
    s.nodeIsDetached id = true ∧
      ∃ node, s.nodes[id]? = some node ∧ bodyMatches node.body = true := by
  unfold mayReattach at h
  split at h
  · cases h
  · next hdt =>
    obtain ⟨relative, _, h⟩ := bind_ok.mp h
    split at h
    · cases h
    · obtain ⟨node, hnode, h⟩ := bind_ok.mp h
      split at h
      · cases h
      · next hmt => exact ⟨by simpa using hdt, node, node_ok hnode, by simpa using hmt⟩

/-- What comes of looking for a node to put back. -/
structure Reattached (s : State) (q : UInt64) (bodyMatches : Body → Bool)
    (r : Result (Option Nat)) (s' : State) : Prop where
  took : s.Took [] (s.Tidy q) r s'
  missing : r = .ok none → s' = s ∧ s.qidIndex[q]? = none
  found : ∀ id, r = .ok (some id) → ∃ node body, s'.nodes[id]? = some node ∧
    bodyMatches body = true ∧ node.body.isDir = body.isDir

theorem wp_reattach (hs : s.Firm) (hp : s.Attached parent) (hdi : s.DirAt parent)
    (hn : s.links parent name = none) (path : Bytes) (q : UInt64) (bodyMatches : Body → Bool) :
    wp (reattachDetachedPushedNode path parent name q bodyMatches)
      (s.Reattached q bodyMatches) s := by
  have he : ∀ e : Error, s.Reattached q bodyMatches (.error e) s := fun e =>
    ⟨.refl hs _, fun h => (nomatch h), fun _ h => nomatch h⟩
  refine wp_ask_bind (fun e _ => he e) fun found hin => ?_
  cases found with
  | none => exact ⟨.refl hs _, fun _ => ⟨rfl, Except.ok.inj hin⟩, fun _ h => nomatch h⟩
  | some id =>
    refine wp_ask_bind (fun e _ => he e) fun _ hmy => ?_
    refine wp_ask_bind (fun e _ => he e) fun node hnode => ?_
    obtain ⟨hdt, found, hfn, hmt⟩ := mayReattach_ok hmy
    have hnode := node_ok hnode
    cases hnode.symm.trans hfn
    obtain ⟨d, hd, hwithin⟩ := hs.sound.within_of_detachedFrom _ id hdt
    have hm := hs.sound.moveNode hnode hd hwithin hp hdi hn
    obtain ⟨f, hf, heq, hst⟩ := hm.sound.collect
    have hh := hm.sound.held_collect
    rw [wp_bind, wp_update]
    rw [wp_pure, heq]
    rw [heq] at hh
    obtain ⟨hrf, hr, hnx⟩ := s.untouched_moveNode id node parent name
    refine ⟨⟨⟨⟨hm.sound.keeping hf, hh⟩, ?_,
      .of_none hnx.ge (fun names i hi => ?_) fun i _ hi => ?_, fun ht => ?_⟩, hr⟩,
      fun h => (nomatch h), fun id' h => ?_⟩
    · rw [hm.sound.fidReferences_keeping hf fun d hd h => (hst d hd).mpr h]
      exact hrf
    · exact hf.follow_keeping (hm.paths names i hi)
    · rw [nodes_keeping, hm.missing i hi, ite_self]
    · obtain ⟨found, hfn, hq⟩ := (hs.sound.indexed q id).mp (Except.ok.inj hin)
      exact absurd (ht id found hfn hq) (hs.sound.not_attached_of_within hd hwithin)
    · cases h
      obtain ⟨node', hnode', hsm⟩ := hm.kept
      refine ⟨node', node.body, ?_, hmt, hsm⟩
      exact nodes_keeping_eq_some.mpr ⟨hf.attached hm.attached, hnode'⟩

/-! ### Pushed nodes -/

/-- What a push makes of a body that is there keeps its kind and its children. -/
def SettlesBody (bodyMatches : Body → Bool) (settle : Body → Body) : Prop :=
  ∀ body body', bodyMatches body = true → body'.isDir = body.isDir →
    (settle body').isDir = body'.isDir ∧ (settle body').children = body'.children

/-- A file takes the place of what was written. -/
theorem settlesBody_file {bytes : Bytes} : SettlesBody Body.isWritten fun _ => .file bytes := by
  intro body body' hmt hsm
  have hbd : body.isDir = false := by
    cases body with
    | dir directory => cases hmt
    | _ => rfl
  have hbd' := hsm.trans hbd
  exact ⟨hbd'.symm, (Body.children_of_not_dir hbd').symm⟩

/-- The metadata and the body of a push, on a node that is there. -/
theorem grown_settlePushed {body : Body}
    (hs : s.Sound) (hst : SettlesBody bodyMatches settle) (hnode : s.nodes[id]? = some node)
    (hmt : bodyMatches body = true) (hsm : node.body.isDir = body.isDir)
    (metadata : PushedEntryMetadata) :
    wp (do
      applyPushedMetadata id metadata
      .update fun self => self.updateNode id fun node => { node with body := settle node.body }
      pure id) (Grown s fun _ _ => True) s := by
  refine grown_bind (grown_applyPushedMetadata hs hnode metadata) fun _ s' hg ha => ?_
  obtain ⟨node', hnode', hbd⟩ := ha
  have hk := hst body node'.body hmt (by rw [hbd, hsm])
  refine grown_bind (grown_settle hg.sound hnode' ?_) fun _ s'' hg' _ =>
    grown_pure hg'.sound trivial
  exact ⟨⟨⟨rfl, rfl, hk.1⟩, rfl⟩, hk.2⟩

theorem takes_placePushed {fresh : Body}
    (hst : SettlesBody bodyMatches settle) (hf : fresh.children = ∅) (path : Bytes)
    (metadata : PushedEntryMetadata) :
    Takes (fun _ => []) (·.Tidy metadata.qidPath)
      (placePushed path metadata bodyMatches settle fresh) := by
  intro s hs
  refine took_ask_bind hs fun segments _ => ?_
  refine took_ask_bind hs fun ⟨dirs, last⟩ _ => ?_
  refine took_bind hs (grown_ensureDirs dirs s ROOT_ID hs.sound) fun parent s' hg hs' ⟨hp, ht⟩ => ?_
  have ht := ht (Links.Within.refl s.links ROOT_ID) metadata.qidPath
  refine took_ask_bind hs' fun child hc => ?_
  obtain ⟨hdi, hl⟩ := childIn_ok hc
  cases child with
  | some id =>
    refine took_ask_bind hs' fun node hnode => ?_
    refine took_refuseIf_bind hs' fun hrf => ?_
    exact (grown_settlePushed hs'.sound hst (node_ok hnode) (by simpa using hrf) rfl
      metadata).mono fun _ _ h => h.took hs'
  | none =>
    refine (wp_bind _ _).mpr ?_
    refine (wp_reattach hs' hp hdi hl path metadata.qidPath bodyMatches).mono fun r s'' hr => ?_
    have hs'' := hr.took.1.firm
    have htk := hr.took.imp ht
    match r with
    | .error e => exact htk
    | .ok none =>
      obtain ⟨rfl, hfr⟩ := hr.missing rfl
      refine (grown_addNode hs''.sound ?_).mono fun _ _ h => h.took hs''
      exact ⟨hdi, hl, hfr, hf⟩
    | .ok (some id) =>
      obtain ⟨node, body, hnode, hmt, hsm⟩ := hr.found id rfl
      exact (grown_settlePushed hs''.sound hst hnode hmt hsm metadata).mono
        fun _ _ h => htk.trans (h.took hs'')

theorem takes_setPushedFile (path bytes : Bytes) (metadata : PushedEntryMetadata) :
    Takes (fun _ => []) (·.Tidy metadata.qidPath) (setPushedFile path bytes metadata) :=
  .bind (takes_placePushed settlesBody_file rfl path metadata) fun _ =>
    (publishes_pure ()).keeps

theorem takes_setPushedDirectory (path : Bytes) (metadata : PushedEntryMetadata) :
    Takes (fun _ => []) (·.Tidy metadata.qidPath) (setPushedDirectory path metadata) := by
  refine .bind (fun s hs => ?_) fun _ => (publishes_pure ()).keeps
  refine took_refuseIf_bind hs fun _ => takes_placePushed ?_ rfl path metadata s hs
  exact fun _ _ _ _ => ⟨rfl, rfl⟩

/-! ### Taking subtrees out -/

/-- The names along a path. -/
def pathSegments (path : Bytes) : List Bytes :=
  if (trimMatches path).isEmpty then [] else (trimMatches path).splitOn SLASH

theorem descend_ok {segments : List Bytes} {found : Option Nat} : ∀ {current : Nat},
    s.descend current segments = .ok found → s.links.follow current segments = found := by
  induction segments with
  | nil =>
    intro current h
    exact Except.ok.inj h
  | cons segment segments ih =>
    intro current h
    obtain ⟨child, hc, h⟩ := bind_ok.mp h
    rw [Links.follow_cons, (childIn_ok hc).2]
    cases child with
    | none => exact Except.ok.inj h
    | some next => exact ih h

theorem follow_of_lookupOptionalPath {found : Option Nat}
    (h : s.lookupOptionalPath path = .ok found) :
    s.links.follow ROOT_ID (pathSegments path) = found := by
  unfold lookupOptionalPath at h
  unfold pathSegments
  split at h
  · next he =>
    cases h
    rw [if_pos he]
    rfl
  · next he =>
    rw [if_neg he]
    exact descend_ok h

theorem attached_of_lookupOptionalPath
    (h : s.lookupOptionalPath path = .ok (some id)) : s.Attached id :=
  ⟨_, follow_of_lookupOptionalPath h⟩

theorem follow_of_lookupPath (h : s.lookupPath path = .ok id) :
    s.links.follow ROOT_ID (pathSegments path) = some id := by
  obtain ⟨found, hfn, h⟩ := bind_ok.mp h
  cases okOr_ok h
  exact follow_of_lookupOptionalPath hfn

theorem attached_of_lookupPath (h : s.lookupPath path = .ok id) :
    s.Attached id := ⟨_, follow_of_lookupPath h⟩

/-- A node of the tree other than its root is a child of a node of the tree. -/
theorem Sound.linked_of_attached (hs : s.Sound) (hnode : s.nodes[id]? = some node)
    (ha : s.Attached id) (hr : id ≠ ROOT_ID) :
    s.links node.parent node.name = some id ∧ s.Attached node.parent := by
  rcases ha.last with heq | ⟨p, n, hp, hl⟩
  · exact absurd heq hr
  · obtain ⟨_, child, hc, rfl, rfl⟩ := hs.listed p n id hl
    cases hnode.symm.trans hc
    exact ⟨hl, hp⟩

/-- A subtree of the tree is taken out. -/
theorem took_detach (hs : s.Firm) (hl : s.links parent name = some id)
    (hp : s.Attached parent) (r : Result α) :
    s.Took [id] True r (s.detach parent name id) := by
  have hfr : (s.detach parent name id).Firm :=
    ⟨hs.sound.sound_detach hl, hs.sound.held_detach hl hs.held hp⟩
  have hrf := hs.sound.fidReferences_detach hl
  obtain ⟨f, hf, heq, hst⟩ := hs.sound.detach hl
  rw [heq] at hfr hrf ⊢
  refine ⟨⟨hfr, hrf, ⟨le_rfl, fun names i hi ho => ?_, fun i _ hi => ?_,
    fun t ht hnt i _ hi => ?_⟩, fun _ p n c hl _ => ?_⟩, rfl⟩
  · exact hf.follow_keeping (Links.follow_avoid hi (fun _ _ _ => links_cut_or hl)
      (ho id (mem_singleton.mpr rfl)))
  · have hn : (s.cut parent name id).nodes[i]? = none := rel_none (nodes_unlinkChild i) hi
    rw [nodes_keeping, hn, ite_self]
  · cases mem_singleton.mp ht
    have hwithin : (s.cut parent name id).links.Within id i := (within_cut hl hi).elim
      (fun h => h) fun h => h
    have hid : ¬ f id = true := by
      rw [hst id (.inr (mem_set_insert_eq.mpr (.inl rfl)))]
      rintro (hne | ⟨i, hi, hrr⟩)
      · exact hne rfl
      · exact hnt ⟨i, within_of_cut hi, hrr⟩
    rw [nodes_keeping, hf.within hwithin, if_neg hid]
  · exact links_of_cut (links_keeping_eq_some.mp hl).2

/-- What a removal by path takes out. -/
def removedBy (path : Bytes) (s : State) : List Nat :=
  match s.lookupOptionalPath path with
  | .ok (some id) => if id = ROOT_ID then [] else [id]
  | _ => []

theorem takes_removeSubtreeIfExists (path : Bytes) :
    Takes (removedBy path) (fun _ => True) (removeSubtreeIfExists path) := by
  intro s hs
  unfold removedBy
  refine wp_ask_bind (fun e he => ?_) fun found hfn => ?_
  · rw [he]
    exact Took.refl hs _
  rw [hfn]
  cases found with
  | none => exact Took.refl hs _
  | some id =>
    dsimp only
    refine wp_refuseIf_bind (fun hr => ?_) fun hr => ?_
    · rw [if_pos (of_decide_eq_true hr)]
      exact Took.refl hs _
    rw [if_neg (of_decide_eq_false hr)]
    have ha := attached_of_lookupOptionalPath hfn
    refine wp_ask_bind (fun e he => ?_) fun node hnode => ?_
    · obtain ⟨node, hnode⟩ := hs.sound.exists_of_attached ha
      rw [State.node, hnode] at he
      cases he
    obtain ⟨hl, hp⟩ := hs.sound.linked_of_attached (node_ok hnode) ha
      (of_decide_eq_false hr)
    exact took_detach hs hl hp _

/-- A node that is reached from the root of a removal through nodes that are retained. -/
inductive Spared (s : State) (retained : List Nat) (root : Nat) : Nat → Prop
  | root : Spared s retained root root
  | child {p : Nat} {n : Bytes} {c : Nat} (parent : Spared s retained root p)
      (link : s.links p n = some c) (retain : c ∈ retained) : Spared s retained root c

namespace Spared

variable {retained : List Nat} {root : Nat}

theorem within (h : s.Spared retained root i) : s.links.Within root i := by
  induction h with
  | root => exact .refl s.links root
  | child _ hl _ ih => exact ih.child hl

/-- What lies between the root of the removal and a node that is kept is retained. -/
theorem between (hs : s.Sound) (hr : s.Attached root) (h : s.Spared retained root i)
    (hrc : s.links.Within root c) (hci : s.links.Within c i) : c = root ∨ c ∈ retained := by
  induction h with
  | root => exact .inl (hs.single.antisymm hs.rootTop hr hrc hci).symm
  | @child p n i _ hl hrt ih =>
    rcases hci.last with rfl | ⟨q, m, hq, hl'⟩
    · exact .inr hrt
    · obtain ⟨rfl, _⟩ := hs.single p n q m i hl hl'
      exact ih hq

end Spared

/-- A subtree that a removal takes out: a child that is not retained, of a node that is kept. -/
structure Stale (s : State) (retained : List Nat) (root : Nat) (e : Nat × Bytes × Nat) :
    Prop where
  parent : s.Spared retained root e.1
  link : s.links e.1 e.2.1 = some e.2.2
  stale : e.2.2 ∉ retained

/-- What a search finds below a child. -/
structure StaleUnder (s : State) (retained : List Nat) (root child : Nat)
    (stale : List (Nat × Bytes × Nat)) : Prop where
  each : ∀ e ∈ stale, s.Stale retained root e ∧ s.links.Within child e.2.2
  distinct : stale.Pairwise fun e e' => e.2.2 ≠ e'.2.2

theorem staleBelow_ok {retained : List Nat} {root : Nat} (hs : s.Sound) (hr : s.Attached root)
    (fuel : Nat) : ∀ parent stale, s.staleBelow retained fuel parent = .ok stale →
      s.Spared retained root parent → s.StaleUnder retained root parent stale := by
  induction fuel with
  | zero =>
    intro parent stale h _
    cases h
    exact ⟨fun e he => absurd he not_mem_nil, .nil⟩
  | succ fuel ih =>
    intro parent stale h hp
    unfold staleBelow at h
    obtain ⟨node, hnode, h⟩ := bind_ok.mp h
    have hnode := node_ok hnode
    split at h
    · next directory hbd =>
      obtain ⟨parts, hpt, h⟩ := bind_ok.mp h
      cases h
      have hal := mapM_ok hpt
      have hl : ∀ entry ∈ directory.children.toList,
          s.links parent entry.1 = some entry.2 := by
        intro entry hen
        rw [links_of_node hnode, hbd]
        exact ExtTreeMap.mem_toList_iff_getElem?_eq_some.mp hen
      have hpr : ∀ entry ∈ directory.children.toList, ∀ part, (do
          if entry.2 ∈ retained then
            let found ← s.node entry.2
            if found.body.isDir then s.staleBelow retained fuel entry.2 else pure []
          else pure [(parent, entry.1, entry.2)] : Result (List (Nat × Bytes × Nat))) = .ok part →
          s.StaleUnder retained root entry.2 part := by
        intro entry hen part h
        have hc := hl entry hen
        split at h
        · next hrt =>
          obtain ⟨found, _, h⟩ := bind_ok.mp h
          split at h
          · exact ih entry.2 part h (hp.child hc hrt)
          · cases h
            exact ⟨fun e he => absurd he not_mem_nil, .nil⟩
        · next hst =>
          cases h
          refine ⟨fun e he => ?_, List.pairwise_singleton _ _⟩
          cases mem_singleton.mp he
          exact ⟨⟨hp, hc, hst⟩, Links.Within.refl s.links entry.2⟩
      refine ⟨fun e he => ?_, List.pairwise_flatten.mpr ⟨fun part hm => ?_, ?_⟩⟩
      · obtain ⟨part, hm, he⟩ := List.mem_flatten.mp he
        obtain ⟨entry, hen, h⟩ := forall₂_mem_right hal hm
        obtain ⟨hst, hwithin⟩ := (hpr entry hen part h).each e he
        exact ⟨hst, ((Links.Within.refl s.links parent).child (hl entry hen)).trans
          hwithin⟩
      · obtain ⟨entry, hen, h⟩ := forall₂_mem_right hal hm
        exact (hpr entry hen part h).distinct
      · -- Below different children there are different nodes.
        refine forall₂_pairwise hal
          (List.Pairwise.and_mem.mp ExtTreeMap.distinct_keys_toList) ?_
        rintro a b part part' ⟨ha, hb, hne⟩ hpa hpb e he e' he' heq
        have hwithin := ((hpr a ha part hpa).each e he).2
        rw [heq] at hwithin
        have hn := hs.single.sibling hs.rootTop (hr.trans hp.within) (hl a ha)
          (hl b hb) hwithin ((hpr b hb part' hpb).each e' he').2
        exact hne (LawfulEqOrd.compare_eq_iff_eq.mpr hn)
    · cases h

/-- Subtrees of the tree that can be taken out one after the other: no two are the same, and none
contains the place where another one is. -/
structure Apart (s : State) (stale : List (Nat × Bytes × Nat)) : Prop where
  link : ∀ e ∈ stale, s.links e.1 e.2.1 = some e.2.2
  attached : ∀ e ∈ stale, s.Attached e.1
  distinct : stale.Pairwise fun e e' => e.2.2 ≠ e'.2.2
  places : ∀ e ∈ stale, ∀ e' ∈ stale, ¬ s.links.Within e.2.2 e'.1

section Apart

variable {e e' : Nat × Bytes × Nat} {stale : List (Nat × Bytes × Nat)}

/-- None contains another one. -/
theorem Apart.not_within (h : s.Apart stale) (hs : s.Sound) (he : e ∈ stale) (he' : e' ∈ stale)
    (hne : e.2.2 ≠ e'.2.2) : ¬ s.links.Within e.2.2 e'.2.2 := by
  intro hwithin
  rcases hwithin.last with heq | ⟨q, m, hq, hl⟩
  · exact hne heq.symm
  · obtain ⟨rfl, _⟩ := hs.single _ _ q m e'.2.2 (h.link e' he') hl
    exact h.places e he e' he' hq

/-- Once the first is taken out, the others can be taken out. -/
theorem Apart.detach (h : s.Apart (e :: stale)) (hs : s.Sound) :
    (s.detach e.1 e.2.1 e.2.2).Apart stale := by
  have hl := h.link e mem_cons_self
  obtain ⟨hne, hds⟩ := List.pairwise_cons.mp h.distinct
  obtain ⟨f, hf, heq, _⟩ := hs.detach hl
  have hst : ∀ e' ∈ stale, (s.cut e.1 e.2.1 e.2.2).Attached e'.1 := by
    intro e' he'
    have hm := mem_cons_of_mem e he'
    rcases within_cut hl (h.attached e' hm) with hwithin | hwithin
    · exact hwithin
    · exact absurd (within_of_cut hwithin) (h.places e mem_cons_self e' hm)
  rw [heq]
  refine ⟨fun e' he' => ?_, fun e' he' => hf.attached_keeping (hst e' he'), hds,
    fun e' he' e'' he'' hwithin => ?_⟩
  · refine links_keeping_eq_some.mpr ⟨hf.attached (hst e' he'), ?_⟩
    have hl' := h.link e' (mem_cons_of_mem e he')
    refine (links_cut_or hl hl').resolve_right fun heq => ?_
    exact hne e' he' heq.symm
  · exact h.places e' (mem_cons_of_mem e he') e'' (mem_cons_of_mem e he'')
      (within_of_cut (within_of_keeping hwithin))

/-- What is in one of the others stays there. -/
theorem Apart.within_detach (h : s.Apart (e :: stale)) (hs : s.Sound) (he' : e' ∈ stale)
    (hi : s.links.Within e'.2.2 i) : (s.detach e.1 e.2.1 e.2.2).links.Within e'.2.2 i := by
  have hl := h.link e mem_cons_self
  have hne := (List.pairwise_cons.mp h.distinct).1 e' he'
  have hm := mem_cons_of_mem e he'
  have hp := (h.detach hs).attached e' he'
  obtain ⟨f, hf, heq, _⟩ := hs.detach hl
  rw [heq] at hp ⊢
  have hk : f e'.2.2 = true := by
    have hl' := (h.detach hs).link e' he'
    rw [heq] at hl'
    obtain ⟨hfp, hl'⟩ := links_keeping_eq_some.mp hl'
    exact (hf.along _ _ _ hl').trans hfp
  rcases within_cut hl hi with hwithin | hwithin
  · exact hf.within_keeping hk hwithin
  · rcases hs.single.comparable (within_of_cut hwithin) hi with hb | hb
    · exact absurd hb (h.not_within hs mem_cons_self hm hne)
    · exact absurd hb (h.not_within hs hm mem_cons_self hne.symm)

theorem took_detachAll (r : Result α) (stale : List (Nat × Bytes × Nat)) :
    ∀ s : State, s.Firm → s.Apart stale → s.Took (stale.map fun e => e.2.2) True r
      (stale.foldl (fun self (parent, name, id) => self.detach parent name id) s) := by
  induction stale with
  | nil =>
    intro s hs _
    exact Took.refl hs r
  | cons e stale ih =>
    intro s hs ha
    obtain ⟨hf, hr⟩ := took_detach hs (ha.link e mem_cons_self)
      (ha.attached e mem_cons_self) r
    obtain ⟨hrs, hr'⟩ := ih _ hf.firm (ha.detach hs.sound)
    have hb : ∀ {t i}, (s.detach e.1 e.2.1 e.2.2).links.Within t i → s.links.Within t i := by
      obtain ⟨f, _, heq, _⟩ := hs.sound.detach (ha.link e mem_cons_self)
      rw [heq]
      exact fun h => within_of_cut (within_of_keeping h)
    refine ⟨⟨hrs.firm, hrs.references.trans hf.references,
      ⟨hf.passes.next.trans hrs.passes.next, fun names i hi ho => ?_, fun i hlt hn => ?_,
        fun t ht hnt i hlt hi => ?_⟩,
      fun h => (hf.settled h).trans (hrs.settled h) hf.passes.next⟩,
      hr'.trans hr⟩
    · refine hrs.passes.paths names i (hf.passes.paths names i hi fun t ht => ?_)
        fun t ht h => ?_
      · cases mem_singleton.mp ht
        exact ho e.2.2 mem_cons_self
      · exact ho t (mem_cons_of_mem _ ht) (hb h)
    · exact hrs.passes.missing i (hlt.trans_le hf.passes.next)
        (hf.passes.missing i hlt hn)
    · rcases List.mem_cons.mp ht with rfl | ht
      · exact hrs.passes.missing i (hlt.trans_le hf.passes.next)
          (hf.passes.freed _ (mem_singleton.mpr rfl) hnt i hlt hi)
      · obtain ⟨e', he', rfl⟩ := List.mem_map.mp ht
        refine hrs.passes.freed _ ht (fun ⟨j, hj, hrr⟩ => hnt ⟨j, hb hj, ?_⟩) i
          (hlt.trans_le hf.passes.next) (ha.within_detach hs.sound he' hi)
        rwa [hf.references] at hrr

end Apart

theorem staleSubtrees_ok {rootPath : Bytes} {paths : List Bytes}
    (hs : s.Sound) (h : s.staleSubtrees rootPath paths = .ok stale) :
    ∃ root rootSegments chains, s.lookupPath (canonicalRootPath rootPath) = .ok root ∧
      paths.mapM (s.retainedBy root rootSegments) = .ok chains ∧
      s.collectStaleSubtrees root (root :: chains.flatten) = .ok stale ∧
      s.StaleUnder (root :: chains.flatten) root root stale := by
  obtain ⟨rootSegments, _, h⟩ := bind_ok.mp h
  obtain ⟨root, hr, h⟩ := bind_ok.mp h
  obtain ⟨node, _, h⟩ := bind_ok.mp h
  dsimp only at h
  split at h
  · cases h
  · obtain ⟨chains, hch, h⟩ := bind_ok.mp h
    exact ⟨root, rootSegments, chains, hr, hch, h,
      staleBelow_ok hs (attached_of_lookupPath hr) _ root stale h .root⟩

/-- A subtree that is taken out does not contain the place where another one is. -/
theorem StaleUnder.apart {retained : List Nat} {root : Nat}
    {e e' : Nat × Bytes × Nat} (h : s.StaleUnder retained root root stale) (hs : s.Sound)
    (hr : s.Attached root) (hrt : root ∈ retained) (he : e ∈ stale) (he' : e' ∈ stale) :
    ¬ s.links.Within e.2.2 e'.1 := by
  intro hwithin
  obtain ⟨hst, hb⟩ := h.each e he
  rcases (h.each e' he').1.parent.between hs hr hb hwithin with heq | hm
  · exact hst.stale (heq ▸ hrt)
  · exact hst.stale hm

theorem Sound.apart_staleSubtrees {rootPath : Bytes} {paths : List Bytes} (hs : s.Sound)
    (h : s.staleSubtrees rootPath paths = .ok stale) : s.Apart stale := by
  obtain ⟨root, _, _, hr, _, _, hu⟩ := staleSubtrees_ok hs h
  have hr := attached_of_lookupPath hr
  exact ⟨fun e he => (hu.each e he).1.link,
    fun e he => hr.trans (hu.each e he).1.parent.within, hu.distinct,
    fun e he e' he' => hu.apart hs hr mem_cons_self he he'⟩

/-- What `retainSubtreePaths` takes out. -/
def retiredBy (rootPath : Bytes) (paths : List Bytes) (s : State) : List Nat :=
  match s.staleSubtrees rootPath paths with
  | .ok stale => stale.map fun e => e.2.2
  | .error _ => []

/-- Entries of the registry go. -/
def Unregistered (s s' : State) : Prop :=
  s'.principalRootsRequired = s.principalRootsRequired ∧
    ∀ (uname : Bytes) (entry : PrincipalRoot), s'.principalRoots[uname]? = some entry →
      s.principalRoots[uname]? = some entry

theorem Unregistered.trans (h : s.Unregistered s') (h' : s'.Unregistered s'') :
    s.Unregistered s'' :=
  ⟨h'.1.trans h.1, fun uname entry hen => h.2 uname entry (h'.2 uname entry hen)⟩

theorem unregistered_of_registry (h : s'.registry = s.registry) : s.Unregistered s' := by
  obtain ⟨hrt, hr⟩ := Prod.ext_iff.mp h
  refine ⟨hr, fun uname entry hen => ?_⟩
  rwa [show s'.principalRoots = s.principalRoots from hrt] at hen

theorem unregistered_filter (s : State) (keep : Bytes → PrincipalRoot → Bool) :
    s.Unregistered { s with principalRoots := s.principalRoots.filter keep } := by
  refine ⟨rfl, fun uname entry hen => ?_⟩
  rw [ExtTreeMap.getElem?_filter'] at hen
  exact (Option.filter_eq_some_iff.mp hen).1

theorem upheld_retainSubtreePaths (rootPath : Bytes) (paths : List Bytes) (hs : s.Firm) :
    wp (retainSubtreePaths rootPath paths)
      (fun _ s' => s.Upheld (retiredBy rootPath paths s) True s' ∧ s.Unregistered s') s := by
  unfold retiredBy
  refine wp_ask_bind (fun e he => ?_) fun stale hst => ?_
  · rw [he]
    exact ⟨Upheld.refl hs, unregistered_of_registry rfl⟩
  rw [hst]
  obtain ⟨hu, hr⟩ := took_detachAll (.ok ()) stale s hs
    (hs.sound.apart_staleSubtrees hst)
  have hsm := unregistered_of_registry hr
  rw [wp_bind, wp_update]
  dsimp only
  rw [wp_bind, wp_update]
  dsimp only
  rw [wp_pure]
  split
  · exact ⟨hu, hsm⟩
  · exact ⟨hu.trans (Upheld.reregister hu.firm _ _),
      hsm.trans (unregistered_filter _ _)⟩

theorem upheld_setPrincipalClassAname (uname principalId aname rootPath : Bytes) (hs : s.Firm) :
    wp (setPrincipalClassAname uname principalId aname rootPath)
      (fun _ s' => s.Upheld [] True s') s := by
  refine wp_refuseIf_bind (fun _ => Upheld.refl hs) fun _ => ?_
  refine wp_refuseIf_bind (fun _ => Upheld.refl hs) fun _ => ?_
  refine wp_ask_bind (fun _ _ => Upheld.refl hs) fun root _ => ?_
  refine wp_ask_bind (fun _ _ => Upheld.refl hs) fun node _ => ?_
  refine wp_refuseIf_bind (fun _ => Upheld.refl hs) fun _ => ?_
  rw [wp_bind, wp_update]
  dsimp only
  refine wp_ask_bind (fun _ _ => Upheld.reregister hs _ _) fun entry _ => ?_
  rw [wp_update]
  exact Upheld.reregister hs _ _

/-- What the undoing of a create takes out. -/
def undoneBy (qidPath : UInt64) (s : State) : List Nat :=
  match s.nodeIdForQidPath qidPath >>= fun id => s.pathRelativeTo id ROOT_ID with
  | .ok path => removedBy path s
  | .error _ => []

theorem takes_undoCreate (qidPath : UInt64) :
    Takes (undoneBy qidPath) (fun _ => True) (undoCreate qidPath) := by
  intro s hs
  unfold undoneBy
  refine wp_ask_bind (fun e he => ?_) fun id hid => ?_
  · rw [he]
    exact Took.refl hs _
  refine wp_ask_bind (fun e he => ?_) fun path hp => ?_
  · rw [hid]
    show s.Took (match s.pathRelativeTo id ROOT_ID with | .ok path => _ | .error _ => _) _ _ s
    rw [he]
    exact Took.refl hs _
  rw [hid]
  show wp _ (s.Took (match s.pathRelativeTo id ROOT_ID with | .ok path => _ | .error _ => _) _) s
  rw [hp]
  exact takes_removeSubtreeIfExists path s hs

/-- What the undoing of a create whose request is gone takes out. -/
def undoneAt (parent : Nat) (name : Bytes) (s : State) : List Nat :=
  match s.pathRelativeTo parent ROOT_ID with
  | .ok path => removedBy (createdChildPath path name) s
  | .error _ => []

theorem takes_undoCreateAt (parent : Nat) (name : Bytes) :
    Takes (undoneAt parent name) (fun _ => True) (undoCreateAt parent name) := by
  intro s hs
  unfold undoneAt
  refine wp_ask_bind (fun e he => ?_) fun path hp => ?_
  · rw [he]
    exact Took.refl hs _
  rw [hp]
  exact takes_removeSubtreeIfExists _ s hs

end State

open State

namespace OwnerOp

/-- The subtrees that an operation takes out. -/
def removes : OwnerOp → State → List Nat
  | .removeSubtreeIfExists path => removedBy path
  | .retainSubtreePaths rootPath paths => retiredBy rootPath paths
  | .undoCreate qidPath => undoneBy qidPath
  | .undoCreateAt parent name => undoneAt parent name
  | _ => fun _ => []

/-- The operations that change who may attach. -/
def reregisters : OwnerOp → Bool
  | .retainSubtreePaths _ _ | .setPrincipalClassAname _ _ _ _ | .retainPrincipalRoots _ => true
  | _ => false

/-- An operation that pushes nodes is calm if the node with their qid path is in the tree. -/
def Calm : OwnerOp → State → Prop
  | .setPushedFile _ _ metadata => (·.Tidy metadata.qidPath)
  | .setPushedDirectory _ metadata => (·.Tidy metadata.qidPath)
  | _ => fun _ => True

theorem takes (op : OwnerOp) (h : op.reregisters = false) : Takes op.removes op.Calm op.run := by
  cases op with
  | set path bytes => exact (publishes_set path bytes).keeps
  | setPushedFile path bytes metadata => exact takes_setPushedFile path bytes metadata
  | setPushedDirectory path metadata => exact takes_setPushedDirectory path metadata
  | removeSubtreeIfExists path => exact takes_removeSubtreeIfExists path
  | retainSubtreePaths rootPath paths => cases h
  | appendEvent path bytes => exact (publishes_appendEvent path bytes).keeps
  | setLogCapacity capacity => exact (publishes_setLogCapacity capacity).keeps
  | registerIntake path => exact (publishes_registerIntake path).keeps
  | registerRpc path => exact (publishes_registerRpc path).keeps
  | registerReadRelay path => exact (publishes_registerReadRelay path).keeps
  | registerReadRelayWithMetadata path metadata =>
    exact (publishes_registerReadRelayWithMetadata path metadata).keeps
  | registerSnapshotReadRelay path => exact (publishes_registerSnapshotReadRelay path).keeps
  | registerDirectoryReadRelay path => exact (publishes_registerDirectoryReadRelay path).keeps
  | registerWriteRelay path => exact (publishes_registerWriteRelay path).keeps
  | registerRemoveRelay path => exact (publishes_registerRemoveRelay path).keeps
  | registerWstatRelay path => exact (publishes_registerWstatRelay path).keeps
  | registerCreateRelay path => exact (publishes_registerCreateRelay path).keeps
  | registerLog path => exact (publishes_registerLog path).keeps
  | registerLogAt path start => exact (publishes_registerLogAt path start).keeps
  | registerChildDirectoryResolver path resolution read removal =>
    exact (publishes_registerChildDirectoryResolver path resolution read removal).keeps
  | registerRenameRelay path request => exact (publishes_registerRenameRelay path request).keeps
  | setPrincipalClassAname uname principalId aname rootPath | retainPrincipalRoots unames => cases h
  | completeIntake path requestId bytes =>
    exact (publishes_completeIntake path requestId bytes).keeps
  | completeCreate parent name qid generation relay =>
    exact ((publishes_insertCreatedRelayNode parent name qid generation relay).bind fun _ =>
      publishes_pure ()).keeps
  | undoCreate qidPath => exact takes_undoCreate qidPath
  | undoCreateAt parent name => exact takes_undoCreateAt parent name

theorem exec_retainSubtreePaths (rootPath : Bytes) (paths : List Bytes) (s : State) :
    ((retainSubtreePaths rootPath paths).run.exec s).2 =
      ((State.retainSubtreePaths rootPath paths).exec s).2 := by
  show ((State.retainSubtreePaths rootPath paths >>= fun _ => pure ()).exec s).2 = _
  rw [exec_bind]
  split
  · next heq =>
    rw [heq]
    rfl
  · next heq => rw [heq]

/-- Every operation of an owner keeps the tables and the references. -/
theorem upheld {s : State} (op : OwnerOp) (hs : s.Firm) :
    s.Upheld (op.removes s) (op.Calm s) (op.run.exec s).2 := by
  by_cases h : op.reregisters = false
  · exact (op.takes h s hs).1
  · cases op with
    | retainSubtreePaths rootPath paths =>
      rw [exec_retainSubtreePaths]
      exact (upheld_retainSubtreePaths rootPath paths hs).1
    | setPrincipalClassAname uname principalId aname rootPath =>
      exact upheld_setPrincipalClassAname uname principalId aname rootPath hs
    | retainPrincipalRoots unames => exact Upheld.reregister hs _ _
    | _ => exact absurd rfl h

end OwnerOp

end R9P.Front
