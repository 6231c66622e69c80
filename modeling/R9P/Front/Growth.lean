import R9P.Front.Owner
import R9P.Front.Sweep

/-!
# Publishing nodes

Library `Front`. The operations of an owner that put nodes into the tree or change the ones that
are there: no node goes, none moves, and the tables keep agreeing with each other.
-/

namespace R9P.Front
open Std Base Base.Checked Wire Server

namespace State

variable {s s' s'' : State} {id i p c parent : Nat} {n name : Bytes} {node : Node} {f : Node → Node}
  {body : Body} {q : UInt64}

/-- Who may attach, and where. -/
def registry (s : State) : ExtTreeMap Bytes PrincipalRoot × Bool :=
  (s.principalRoots, s.principalRootsRequired)

/-- Nodes were added or changed in place. -/
structure Grows (s s' : State) : Prop where
  sound : s'.Sound
  references : s'.fidReferences = s.fidReferences
  detached : s'.detachedRoots = s.detachedRoots
  registry : s'.registry = s.registry
  next : s.nextId ≤ s'.nextId
  links : ∀ p n c, s.links p n = some c → s'.links p n = some c
  nodes : ∀ (i : Nat) (node : Node), s.nodes[i]? = some node →
    ∃ node', s'.nodes[i]? = some node' ∧ SamePlace node node'
  back : ∀ (i : Nat) (node' : Node), s'.nodes[i]? = some node' → i < s.nextId →
    ∃ node, s.nodes[i]? = some node

namespace Grows

private theorem refl (hs : s.Sound) : s.Grows s :=
  ⟨hs, rfl, rfl, rfl, le_rfl, fun _ _ _ h => h, fun _ node h => ⟨node, h, .refl node⟩,
    fun _ node h _ => ⟨node, h⟩⟩

section
variable (h : s.Grows s')
include h

private theorem trans (h' : s'.Grows s'') : s.Grows s'' := by
  refine ⟨h'.sound, h'.references.trans h.references, h'.detached.trans h.detached,
    h'.registry.trans h.registry, h.next.trans h'.next, fun p n c hl => h'.links p n c (h.links p
      n c hl),
    fun i node hnd => ?_, fun i node'' hnd'' hlt => ?_⟩
  · obtain ⟨node', hnd', hp, hn, hd⟩ := h.nodes i node hnd
    obtain ⟨node'', hnd'', hp', hn', hd'⟩ := h'.nodes i node' hnd'
    exact ⟨node'', hnd'', hp'.trans hp, hn'.trans hn, hd'.trans hd⟩
  · obtain ⟨node', hnd'⟩ := h'.back i node'' hnd'' (hlt.trans_le h.next)
    exact h.back i node' hnd' hlt

/-- Links to nodes that were there are old. -/
theorem settled (hs : s.Sound) (hl : s'.links p n = some c) (hlt : c < s.nextId) :
    s.links p n = some c := by
  obtain ⟨hnt, node', hnd', rfl, rfl⟩ := h.sound.listed p n c hl
  obtain ⟨node, hnd⟩ := h.back c node' hnd' hlt
  obtain ⟨found, hfn, hp, hn, _⟩ := h.nodes c node hnd
  cases hnd'.symm.trans hfn
  rw [hp, hn]
  refine hs.linked hnd fun ht => hnt ?_
  unfold IsTop
  rw [h.detached]
  exact ht

theorem within {top : Nat} (hw : s.links.Within top i) : s'.links.Within top i := hw.mono h.links

theorem attached (hi : s.Attached i) : s'.Attached i := h.within hi

/-- A node that was there has not come into the tree. -/
theorem attached_back (hs : s.Sound) (hi : s'.Attached i) (hlt : i < s.nextId) : s.Attached i := by
  refine .back (P := (· < s.nextId)) (fun p n c hl hc => ?_) hi hlt
  have hl := h.settled hs hl hc
  obtain ⟨directory, hd, _⟩ := links_eq_some.mp hl
  exact ⟨hl, (hs.fresh p directory hd).1⟩

theorem held (hh : s.Held) : s'.Held := by
  intro d hd
  rw [h.detached] at hd
  obtain ⟨i, hi, hr⟩ := hh d hd
  refine ⟨i, h.within hi, ?_⟩
  rw [h.references]
  exact hr

end

/-- A change that keeps the places of the nodes and the links. -/
theorem of_same (hs : s'.Sound) (hln : s'.links = s.links) (hr : s'.fidReferences = s.fidReferences)
    (hd : s'.detachedRoots = s.detachedRoots) (hrg : s'.registry = s.registry)
    (hnx : s'.nextId = s.nextId) (hn : ∀ i : Nat, Option.Rel SamePlace s.nodes[i]? s'.nodes[i]?) :
    s.Grows s' := by
  refine ⟨hs, hr, hd, hrg, hnx.ge, fun p n c hl => ?_,
    fun i node hnd => rel_forward (hn i) node hnd, fun i node' hnd' _ => ?_⟩
  · rw [hln]
    exact hl
  · obtain ⟨node, hnd, _⟩ := rel_back (hn i) node' hnd'
    exact ⟨node, hnd⟩

theorem updateNode (hs : s.Sound)
    (hf : ∀ node, s.nodes[id]? = some node → Settles f node) : s.Grows (s.updateNode id f) :=
  of_same (hs.updateNode hf) (links_updateNode fun node hnd => (hf node hnd).2) rfl rfl rfl rfl
    (rel_updateNode .refl fun node hnd => (hf node hnd).1.1)

/-- A change of other tables. -/
theorem of_frame (hs : s.Sound) (hn : s'.nodes = s.nodes) (hi : s'.qidIndex = s.qidIndex)
    (hr : s'.fidReferences = s.fidReferences) (hd : s'.detachedRoots = s.detachedRoots)
    (hrg : s'.registry = s.registry) (hnx : s'.nextId = s.nextId) : s.Grows s' := by
  have hln : s'.links = s.links := by
    unfold State.links
    rw [hn]
  have hrl : ∀ i : Nat, Option.Rel SamePlace s.nodes[i]? s'.nodes[i]? := by
    intro i
    rw [hn]
    cases s.nodes[i]? with
    | none => exact .none
    | some node => exact .some (.refl node)
  refine of_same (hs.transfer hln hd hnx hr hrl fun q i => ?_) hln hr hd hrg hnx hrl
  rw [hi, hn]
  exact hs.indexed q i

/-- Another qid path for a node, if no other node has it. -/
theorem replaced {qidPath : UInt64} (hs : s.Sound) (hnd : s.nodes[id]? = some node)
    (hf : ∀ owner, s.qidIndex[qidPath]? = some owner → owner = id) :
    s.Grows ({ s with qidIndex := (s.qidIndex.erase node.qidPath).insert qidPath id }.updateNode id
      fun node => { node with qidPath := qidPath }) := by
  refine of_same (hs.replaced hnd hf) ?_ rfl rfl rfl rfl fun i => ?_
  · exact links_updateNode (s := { s with qidIndex := _ }) fun _ _ => rfl
  · exact rel_updateNode (s := { s with qidIndex := _ })
      (f := fun node => { node with qidPath := qidPath }) .refl
      (fun _ _ => ⟨rfl, rfl, rfl⟩) i

theorem added (hs : s.Sound) (hnd : s.Insertable node) : s.Grows (s.added node) := by
  have hn := nodes_added s node
  refine ⟨hs.added hnd, rfl, rfl, rfl, Nat.le_succ _, fun p n c hl => ?_, fun i found hfn =>
    ?_,
    fun i found' hfn' hlt => ?_⟩
  · rw [links_added hs hnd, if_neg]
    · exact hl
    · rintro ⟨rfl, rfl⟩
      rw [hnd.name] at hl
      cases hl
  · obtain ⟨found', hfn', hp, _⟩ := rel_forward (hn i) found (by
      rw [if_neg]
      · exact hfn
      · rintro rfl
        rw [hs.missing_next] at hfn
        cases hfn)
    exact ⟨found', hfn', hp⟩
  · obtain ⟨found, hfn, _⟩ := rel_back (hn i) found' hfn'
    rw [if_neg (Nat.ne_of_gt hlt)] at hfn
    exact ⟨found, hfn⟩

end Grows

/-! ### Sequences -/

section Grown

variable {α β : Type}

/-- The tables have grown, and a result has what is claimed of it. -/
def Grown (s : State) (Q : α → State → Prop) (result : Result α) (s' : State) : Prop :=
  s.Grows s' ∧ ∀ a, result = .ok a → Q a s'

variable {P : α → State → Prop} {Q : β → State → Prop}

theorem grown_pure (hs : s.Sound) {a : α} (h : P a s) :
    wp (pure a : Checked State Error α) (Grown s P) s := by
  refine ⟨.refl hs, fun a' ha' => ?_⟩
  cases ha'
  exact h

private theorem grown_throw (hs : s.Sound) (e : Error) :
    wp (throw e : Checked State Error α) (Grown s P) s :=
  ⟨.refl hs, fun _ h => nomatch h⟩

private theorem grown_ask (hs : s.Sound) {f : State → Result α} (h : ∀ a, f s = .ok a → P a s) :
    wp (.ask f) (Grown s P) s :=
  ⟨.refl hs, h⟩

theorem grown_refuseIf (hs : s.Sound) {condition : Bool} {e : Error} {P : Unit → State → Prop}
    (h : condition = false → P () s) : wp (.refuseIf condition e) (Grown s P) s := by
  cases condition with
  | true => exact grown_throw hs e
  | false => exact grown_pure hs (h rfl)

private theorem grown_update {f : State → State} {P : Unit → State → Prop} (hg : s.Grows (f s))
    (h : P () (f s)) : wp (.update f) (Grown s P) s :=
  ⟨hg, fun _ _ => h⟩

theorem grown_bind {x : Checked State Error α} {f : α → Checked State Error β}
    (hx : wp x (Grown s P) s) (hf : ∀ a s', s.Grows s' → P a s' → wp (f a) (Grown s' Q) s') :
    wp (x >>= f) (Grown s Q) s := by
  rw [wp_bind]
  refine hx.mono fun r s' ⟨hg, hp⟩ => ?_
  cases r with
  | error e => exact ⟨hg, fun _ h => nomatch h⟩
  | ok a =>
    refine (hf a s' hg (hp a rfl)).mono fun r s'' ⟨hg', hq⟩ => ?_
    exact ⟨hg.trans hg', hq⟩

/-- Behind a check. -/
theorem grown_ask_bind (hs : s.Sound) {g : State → Result α} {f : α → Checked State Error β}
    (hf : ∀ a, g s = .ok a → wp (f a) (Grown s Q) s) :
    wp (.ask g >>= f) (Grown s Q) s :=
  wp_ask_bind (fun _ _ => ⟨.refl hs, fun _ h => nomatch h⟩) hf

private theorem grown_refuseIf_bind (hs : s.Sound) {condition : Bool} {e : Error}
    {f : Unit → Checked State Error β} (hf : condition = false → wp (f ()) (Grown s Q) s) :
    wp (.refuseIf condition e >>= f) (Grown s Q) s :=
  wp_refuseIf_bind (fun _ => ⟨.refl hs, fun _ h => nomatch h⟩) hf

end Grown

/-! ### Nodes -/

/-- A node is a directory. -/
def DirAt (s : State) (id : Nat) : Prop :=
  ∃ node, s.nodes[id]? = some node ∧ node.body.isDir = true

theorem okOr_ok {α : Type} {o : Option α} {e : String} {a : α} (h : okOr o e = .ok a) :
    o = some a := by
  cases o with
  | none => cases h
  | some b =>
    cases h
    rfl

theorem node_ok (h : s.node id = .ok node) : s.nodes[id]? = some node := okOr_ok h

theorem childIn_ok {child : Option Nat} (h : s.childIn parent name = .ok child) :
    s.DirAt parent ∧ s.links parent name = child := by
  obtain ⟨node, hnd, h⟩ := bind_ok.mp h
  have hnd := node_ok hnd
  split at h
  · next directory hb =>
    cases h
    refine ⟨⟨node, hnd, by rw [hb]; rfl⟩, ?_⟩
    rw [links_of_node hnd, hb]
    rfl
  · cases h

theorem availableFrom_ok (fuel : Nat) : ∀ candidate,
    s.availableFrom fuel candidate = .ok q → s.qidIndex[q]? = none := by
  induction fuel with
  | zero =>
    intro candidate h
    cases h
  | succ fuel ih =>
    intro candidate h
    unfold availableFrom at h
    split at h
    · split at h
      · cases h
      · exact ih _ h
    · next hf =>
      cases h
      rw [ExtTreeMap.contains_eq_isSome_getElem?, Bool.not_eq_true,
        Option.isSome_eq_false_iff, Option.isNone_iff_eq_none] at hf
      exact hf

/-- The check before a node with a given qid path is inserted. -/
theorem unindexed_of_ok {u : Unit}
    (h : (if s.qidIndex.contains q then .error (.fromStatic "qid path already in use")
      else .ok () : Result Unit) = .ok u) : s.qidIndex[q]? = none := by
  split at h
  · cases h
  · next hf =>
    rw [ExtTreeMap.contains_eq_isSome_getElem?, Bool.not_eq_true,
      Option.isSome_eq_false_iff, Option.isNone_iff_eq_none] at hf
    exact hf

/-- The node with a qid path, if there is one, is in the tree. -/
def Tidy (s : State) (q : UInt64) : Prop :=
  ∀ (i : Nat) (node : Node), s.nodes[i]? = some node → node.qidPath = q → s.Attached i

/-- A new node of the tree leaves the others where they are. -/
theorem Tidy.added (h : s.Tidy q) (hs : s.Sound) (hnd : s.Insertable node)
    (hp : s.Attached node.parent) : (s.added node).Tidy q := by
  intro i found' hfn' hq
  have hg := Grows.added hs hnd
  obtain ⟨found, hfn, _, hsm⟩ := rel_back (nodes_added s node i) found' hfn'
  split at hfn
  · next heq =>
    refine (hg.attached hp).child (n := node.name) ?_
    rw [links_added hs hnd, if_pos ⟨rfl, rfl⟩, heq]
  · exact hg.attached (h i found hfn (hsm.symm.trans hq))

/-- What a new node leaves. -/
structure Added (s : State) (parent : Nat) (name : Bytes) (isDir : Bool) (id : Nat)
    (s' : State) : Prop where
  link : s'.links parent name = some id
  found : ∃ node', s'.nodes[id]? = some node' ∧ node'.body.isDir = isDir
  tidy : s.Attached parent → ∀ q, s.Tidy q → s'.Tidy q

theorem grown_addNode (hs : s.Sound) (hnd : s.Insertable node) :
    wp (addNode node) (Grown s (s.Added node.parent node.name node.body.isDir)) s := by
  refine ⟨.added hs hnd, fun id h => ?_⟩
  cases h
  obtain ⟨node', hnd', ⟨_, _, hd⟩, _⟩ :=
    rel_forward (nodes_added s node s.nextId) node (if_pos rfl)
  refine ⟨?_, ⟨node', hnd', hd⟩, fun hp q hq => hq.added hs hnd hp⟩
  show (s.added node).links node.parent node.name = _
  rw [links_added hs hnd, if_pos ⟨rfl, rfl⟩]

private theorem grown_addPlaced (hs : s.Sound) (hp : s.DirAt parent)
    (hn : s.links parent name = none) (hb : body.children = ∅) :
    wp (addPlaced name parent body) (Grown s (s.Added parent name body.isDir)) s := by
  refine grown_ask_bind hs fun q hq => ?_
  exact grown_addNode hs ⟨hp, hn, availableFrom_ok _ _ hq, hb⟩

private theorem grown_ensureDir (hs : s.Sound) : wp (ensureDir parent name)
    (Grown s fun id s' => s'.links.Within parent id ∧
      (s.Attached parent → ∀ q, s.Tidy q → s'.Tidy q)) s := by
  refine grown_ask_bind hs fun child hc => ?_
  obtain ⟨hp, hl⟩ := childIn_ok hc
  cases child with
  | some existing =>
    refine grown_ask_bind hs fun found hfn => ?_
    split
    · exact grown_pure hs ⟨(Links.Within.refl s.links parent).child hl, fun _ _ h => h⟩
    · exact grown_throw hs _
  | none =>
    refine (grown_addPlaced hs hp hl rfl).mono fun r s' ⟨hg, h⟩ => ⟨hg, ?_⟩
    intro id hid
    exact ⟨(Links.Within.refl s'.links parent).child (h id hid).link, (h id hid).tidy⟩

theorem grown_ensureDirs (segments : List Bytes) : ∀ (s : State) (current : Nat), s.Sound →
    wp (ensureDirs current segments) (Grown s fun id s' => s'.links.Within current id ∧
      (s.Attached current → ∀ q, s.Tidy q → s'.Tidy q)) s := by
  induction segments with
  | nil =>
    intro s current hs
    exact grown_pure hs ⟨.refl s.links current, fun _ _ h => h⟩
  | cons segment segments ih =>
    intro s current hs
    refine grown_bind (grown_ensureDir hs) fun next s' hg ⟨hnx, ht⟩ => ?_
    refine (ih s' next hg.sound).mono fun r s'' ⟨hg', h⟩ => ⟨hg', ?_⟩
    intro id hid
    obtain ⟨hid, ht'⟩ := h id hid
    refine ⟨(hg'.within hnx).trans hid, fun hc q hq => ?_⟩
    exact ht' ((hg.attached hc).trans hnx) q (ht hc q hq)

private theorem grown_ensurePathDir (hs : s.Sound) (path : Bytes) :
    wp (ensurePathDir path) (Grown s fun id s' => s'.Attached id) s := by
  refine grown_ask_bind hs fun segments _ => ?_
  exact (grown_ensureDirs segments s ROOT_ID hs).mono fun _ _ h =>
    ⟨h.1, fun id hid => (h.2 id hid).1⟩

/-- A change of a node that is there. -/
theorem grown_settle (hs : s.Sound) (hnd : s.nodes[id]? = some node)
    (hf : Settles f node) : wp (.update fun self => self.updateNode id f)
      (Grown s fun _ s' => s'.nodes[id]? = some (f node)) s := by
  refine grown_update (.updateNode hs fun found hfn => ?_) ?_
  · cases hnd.symm.trans hfn
    exact hf
  · rw [nodes_updateNode, if_pos rfl, hnd]
    rfl

/-- A node that is no directory becomes another that is none. -/
theorem settles_of_not_dir (hp : (f node).parent = node.parent)
    (hn : (f node).name = node.name) (hq : (f node).qidPath = node.qidPath)
    (hnd : node.body.isDir = false) (hb : (f node).body.isDir = false) : Settles f node := by
  refine ⟨⟨⟨hp, hn, hb.trans hnd.symm⟩, hq⟩, ?_⟩
  rw [Body.children_of_not_dir hnd]
  exact Body.children_of_not_dir hb

private theorem grown_placeOver (hs : s.Sound) : wp (placeOver id body) (Grown s fun id' s' =>
      ∃ node', s'.nodes[id']? = some node' ∧ node'.body.isDir = body.isDir) s := by
  refine grown_ask_bind hs fun capacity _ => ?_
  refine grown_ask_bind hs fun node hnd => ?_
  have hnd := node_ok hnd
  split
  · next bytes' bytes hb =>
    refine grown_bind (grown_settle hs hnd
      (settles_of_not_dir rfl rfl rfl (by rw [hb]; rfl) rfl)) fun _ s' hg ha => ?_
    exact grown_pure hg.sound ⟨_, ha, rfl⟩
  · next existing incoming hb =>
    refine grown_bind (grown_settle hs hnd
      (settles_of_not_dir rfl rfl rfl (by rw [hb]; rfl) rfl)) fun _ s' hg ha => ?_
    exact grown_pure hg.sound ⟨_, ha, rfl⟩
  · exact grown_throw hs _

private theorem grown_place (hs : s.Sound) (path : Bytes) (hb : body.children = ∅) :
    wp (place path body) (Grown s fun id s' =>
      ∃ node', s'.nodes[id]? = some node' ∧ node'.body.isDir = body.isDir) s := by
  refine grown_ask_bind hs fun segments _ => ?_
  refine grown_ask_bind hs fun ⟨dirs, last⟩ _ => ?_
  refine grown_bind (grown_ensureDirs dirs s ROOT_ID hs) fun parent s' hg _ => ?_
  refine grown_ask_bind hg.sound fun child hc => ?_
  obtain ⟨hp, hl⟩ := childIn_ok hc
  cases child with
  | some id => exact grown_placeOver hg.sound
  | none =>
    exact (grown_addPlaced hg.sound hp hl hb).mono fun r s'' ⟨hg', h⟩ =>
      ⟨hg', fun id hid => (h id hid).found⟩

/-- Another qid path for a node, `model.rs:410`. -/
theorem grown_replaceQidPath (hs : s.Sound) (hnd : s.nodes[id]? = some node)
    (qidPath : UInt64) : wp (replaceQidPath id qidPath)
      (Grown s fun _ s' => ∃ node', s'.nodes[id]? = some node' ∧ node'.body = node.body) s := by
  refine grown_ask_bind hs fun _ hf => ?_
  have hf : ∀ owner, s.qidIndex[qidPath]? = some owner → owner = id := by
    intro owner ho
    rw [ho] at hf
    dsimp only at hf
    split at hf
    · cases hf
    · next heq => exact not_not.mp heq
  refine grown_ask_bind hs fun found hfn => ?_
  cases hnd.symm.trans (node_ok hfn)
  split
  · refine grown_update (.replaced hs hnd hf) ⟨{ node with qidPath := qidPath }, ?_, rfl⟩
    · rw [nodes_updateNode, if_pos rfl]
      rw [hnd]
      rfl
  · exact grown_pure hs ⟨node, hnd, rfl⟩

theorem grown_applyPushedMetadata (hs : s.Sound) (hnd : s.nodes[id]? = some node)
    (metadata : PushedEntryMetadata) : wp (applyPushedMetadata id metadata)
      (Grown s fun _ s' => ∃ node', s'.nodes[id]? = some node' ∧ node'.body = node.body) s := by
  refine grown_bind (grown_replaceQidPath hs hnd metadata.qidPath) fun _ s' hg ha => ?_
  obtain ⟨node', hnd', hb⟩ := ha
  refine (grown_settle hg.sound hnd' ⟨⟨⟨rfl, rfl, rfl⟩, rfl⟩, rfl⟩).mono
    fun r s'' ⟨hg', h⟩ => ⟨hg', fun u hu => ?_⟩
  exact ⟨_, h u hu, hb⟩

/-! ### The operations that publish -/

/-- A computation that only lets the tables grow. -/
def Publishes {α : Type} (x : Checked State Error α) : Prop :=
  ∀ s : State, s.Sound → wp x (Grown s fun _ _ => True) s

section Publishes

variable {α β : Type} {x : Checked State Error α}

private theorem publishes_of_grown {P : State → α → State → Prop}
    (h : ∀ s : State, s.Sound → wp x (Grown s (P s)) s) : Publishes x :=
  fun s hs => (h s hs).mono fun _ _ h => ⟨h.1, fun _ _ => trivial⟩

theorem publishes_ask (f : State → Result α) : Publishes (.ask f) :=
  fun _ hs => grown_ask hs fun _ _ => trivial

theorem publishes_refuseIf (condition : Bool) (e : Error) : Publishes (.refuseIf condition e) :=
  fun _ hs => grown_refuseIf hs fun _ => trivial

theorem publishes_pure (a : α) : Publishes (pure a) := fun _ hs => grown_pure hs trivial

private theorem publishes_update {f : State → State} (h : ∀ s : State, s.Sound → s.Grows (f s)) :
    Publishes (.update f) := fun s hs => grown_update (h s hs) trivial

theorem Publishes.bind {f : α → Checked State Error β} (hx : Publishes x)
    (hf : ∀ a, Publishes (f a)) : Publishes (x >>= f) := fun s hs =>
  grown_bind (hx s hs) fun a s' hg _ => hf a s' hg.sound

end Publishes

variable (path : Bytes)

theorem publishes_place (hb : body.children = ∅) :
    Publishes (place path body) := publishes_of_grown fun _ hs => grown_place hs path hb

theorem publishes_set (bytes : Bytes) : Publishes (set path bytes) :=
  (publishes_place path rfl).bind fun _ => publishes_pure ()

theorem publishes_appendEvent (bytes : Bytes) : Publishes (appendEvent path bytes) :=
  (publishes_place path rfl).bind fun _ => publishes_pure ()

theorem publishes_setLogCapacity (capacity : Nat) : Publishes (setLogCapacity capacity) :=
  publishes_update fun _ hs => .of_frame hs rfl rfl rfl rfl rfl rfl

theorem publishes_registerIntake : Publishes (registerIntake path) := by
  intro s hs
  refine grown_refuseIf_bind hs fun _ => ?_
  refine grown_bind (grown_place hs _ rfl) fun id s' hg ⟨node, hnd, hd⟩ => ?_
  refine grown_update ?_ trivial
  have hst : s'.Grows (s'.updateNode id fun node => { node with body := .intakeNew id }) :=
    .updateNode hg.sound fun found hfn => by
      cases hnd.symm.trans hfn
      exact settles_of_not_dir rfl rfl rfl hd rfl
  exact hst.trans (.of_frame hst.sound rfl rfl rfl rfl rfl rfl)

theorem publishes_registerRpc : Publishes (registerRpc path) :=
  (publishes_refuseIf _ _).bind fun _ => (publishes_place _ rfl).bind fun _ => publishes_pure ()

private theorem grown_registerRelay {isKind : Body → Bool} {body : Bytes → Body} (hs : s.Sound)
    (hk : ∀ body, isKind body = true → body.isDir = false)
    (hb : ∀ path, (body path).isDir = false) (path : Bytes) :
    wp (registerRelay isKind body path)
      (Grown s fun id s' => ∃ node', s'.nodes[id]? = some node') s := by
  refine grown_ask_bind hs fun trimmed _ => ?_
  refine grown_ask_bind hs fun found _ => ?_
  cases found with
  | some id =>
    refine grown_ask_bind hs fun node hnd => ?_
    refine grown_refuseIf_bind hs fun hr => ?_
    have hd : node.body.isDir = false := hk _ (by simpa using hr)
    refine grown_bind (grown_settle hs (node_ok hnd)
      (settles_of_not_dir rfl rfl rfl hd (hb trimmed))) fun _ s' hg ha => ?_
    exact grown_pure hg.sound ⟨_, ha⟩
  | none =>
    refine (grown_place hs trimmed (Body.children_of_not_dir (hb trimmed))).mono
      fun r s' ⟨hg, h⟩ => ⟨hg, fun id hid => ?_⟩
    obtain ⟨node', hnd', _⟩ := h id hid
    exact ⟨node', hnd'⟩

private theorem not_dir_of_isReadRelay (body : Body) (h : isReadRelay body = true) :
    body.isDir = false := by
  cases body with
  | readRelay path => rfl
  | _ => cases h

private theorem not_dir_of_isSnapshotReadRelay (body : Body) (h : isSnapshotReadRelay body = true) :
    body.isDir = false := by
  cases body with
  | snapshotReadRelay path => rfl
  | _ => cases h

theorem publishes_registerReadRelay : Publishes (registerReadRelay path) :=
  (publishes_of_grown fun _ hs => grown_registerRelay hs not_dir_of_isReadRelay (fun _ => rfl)
    path).bind fun _ => publishes_pure ()

theorem publishes_registerSnapshotReadRelay : Publishes (registerSnapshotReadRelay path) :=
  (publishes_of_grown fun _ hs => grown_registerRelay hs not_dir_of_isSnapshotReadRelay
    (fun _ => rfl) path).bind fun _ => publishes_pure ()

theorem publishes_registerReadRelayWithMetadata (metadata : PushedEntryMetadata) :
    Publishes (registerReadRelayWithMetadata path metadata) := by
  intro s hs
  refine grown_bind (grown_registerRelay hs not_dir_of_isReadRelay (fun _ => rfl) path)
    fun id s' hg ⟨node, hnd⟩ => ?_
  exact (grown_applyPushedMetadata hg.sound hnd metadata).mono fun _ _ h =>
    ⟨h.1, fun _ _ => trivial⟩

private theorem publishes_registerOnDir
    (hf : ∀ node, node.body.isDir = true → Settles f node) :
    Publishes (registerOnDir path f) := by
  intro s hs
  refine grown_bind (grown_ensurePathDir hs path) fun id s' hg _ => ?_
  refine grown_ask_bind hg.sound fun node hnd => ?_
  refine grown_refuseIf_bind hg.sound fun hr => ?_
  exact (grown_settle hg.sound (node_ok hnd) (hf node (by simpa using hr))).mono
    fun _ _ h => ⟨h.1, fun _ _ => trivial⟩

/-- A change of a directory that leaves its children alone. -/
theorem settles_onDirectory {f : DirectoryBody → DirectoryBody}
    (hf : ∀ directory, (f directory).children = directory.children) (node : Node) :
    Settles (onDirectory f) node := by
  unfold Settles onDirectory
  split
  · next directory hb =>
    refine ⟨⟨⟨rfl, rfl, by rw [hb]; rfl⟩, rfl⟩, ?_⟩
    rw [hb]
    exact hf directory
  · exact ⟨SameEntry.refl node, rfl⟩

theorem publishes_registerDirectoryReadRelay : Publishes (registerDirectoryReadRelay path) := by
  refine (publishes_ask _).bind fun _ => publishes_registerOnDir _ fun node _ => ?_
  refine settles_onDirectory ?_ node
  exact fun _ => rfl

theorem publishes_registerCreateRelay : Publishes (registerCreateRelay path) :=
  (publishes_ask _).bind fun _ => publishes_registerOnDir _ fun _ _ =>
    ⟨⟨⟨rfl, rfl, rfl⟩, rfl⟩, rfl⟩

theorem publishes_registerChildDirectoryResolver (resolution read : Bytes)
    (removal : ChildDirectoryRemoval) :
    Publishes (registerChildDirectoryResolver path resolution read removal) := by
  refine (publishes_refuseIf _ _).bind fun _ => (publishes_ask _).bind fun _ => ?_
  refine (publishes_ask _).bind fun _ => (publishes_refuseIf _ _).bind fun _ => ?_
  refine publishes_registerOnDir _ fun node _ => settles_onDirectory ?_ node
  exact fun _ => rfl

/-- A relay on a node that is there. -/
theorem publishes_updateNode (id : Nat) (hf : ∀ node, Settles f node) :
    Publishes (.update fun self => self.updateNode id f) :=
  publishes_update fun _ hs => .updateNode hs fun node _ => hf node

private theorem retarget_shape (body : Body) :
    (retarget path body).isDir = body.isDir ∧ (retarget path body).children = body.children := by
  cases body <;> exact ⟨rfl, rfl⟩

theorem publishes_registerWriteRelay : Publishes (registerWriteRelay path) := by
  refine (publishes_ask _).bind fun trimmed => (publishes_ask _).bind fun found => ?_
  cases found with
  | some id =>
    refine (publishes_ask _).bind fun node => (publishes_refuseIf _ _).bind fun _ => ?_
    refine publishes_updateNode id fun node => ?_
    obtain ⟨hd, hc⟩ := retarget_shape trimmed node.body
    exact ⟨⟨⟨rfl, rfl, hd⟩, rfl⟩, hc⟩
  | none =>
    refine (publishes_place trimmed rfl).bind fun id => publishes_updateNode id fun node => ?_
    exact ⟨⟨⟨rfl, rfl, rfl⟩, rfl⟩, rfl⟩

theorem publishes_registerRemoveRelay : Publishes (registerRemoveRelay path) := by
  refine (publishes_ask _).bind fun trimmed => (publishes_ask _).bind fun id => ?_
  refine publishes_update fun s hs => ?_
  have hf : s.Grows
      { s with removeRelayPrefixes := s.removeRelayPrefixes.insert trimmed } :=
    .of_frame hs rfl rfl rfl rfl rfl rfl
  exact hf.trans (.updateNode hf.sound fun _ _ => ⟨⟨⟨rfl, rfl, rfl⟩, rfl⟩, rfl⟩)

theorem publishes_registerWstatRelay : Publishes (registerWstatRelay path) :=
  (publishes_ask _).bind fun _ => (publishes_ask _).bind fun id =>
    publishes_updateNode id fun _ => ⟨⟨⟨rfl, rfl, rfl⟩, rfl⟩, rfl⟩

theorem publishes_registerLog : Publishes (registerLog path) :=
  (publishes_refuseIf _ _).bind fun _ => (publishes_place _ rfl).bind fun _ => publishes_pure ()

theorem publishes_registerLogAt (start : Nat) : Publishes (registerLogAt path start) :=
  (publishes_refuseIf _ _).bind fun _ => (publishes_ask _).bind fun _ =>
    (publishes_refuseIf _ _).bind fun _ => (publishes_place _ rfl).bind fun _ => publishes_pure ()

theorem publishes_registerRenameRelay (request : Bytes) :
    Publishes (registerRenameRelay path request) := by
  refine (publishes_ask _).bind fun trimmed => Publishes.bind ?_ fun root => ?_
  · unfold renameRoot
    split
    · exact publishes_pure _
    · exact publishes_of_grown fun _ hs => grown_ensurePathDir hs _
  · refine (publishes_ask _).bind fun _ => (publishes_refuseIf _ _).bind fun _ => ?_
    exact publishes_update fun _ hs => Grows.of_frame hs rfl rfl rfl rfl rfl rfl

theorem publishes_completeIntake (requestId bytes : Bytes) :
    Publishes (completeIntake path requestId bytes) :=
  (publishes_ask _).bind fun _ => publishes_set _ bytes

/-! ### Nodes that relays make -/

private theorem publishes_createOver (id : Nat) (qid : Qid) (generation : UInt64) (relay : Bytes) :
    Publishes (createOver id qid generation relay) := by
  intro s hs
  refine grown_ask_bind hs fun node hnd => ?_
  refine grown_ask_bind hs fun _ _ => ?_
  refine grown_refuseIf_bind hs fun hk => ?_
  have hk : qid.isDir = node.body.isDir := by simpa using hk
  refine grown_bind (grown_settle hs (node_ok hnd) ?_) fun _ s' hg _ =>
    grown_pure hg.sound trivial
  unfold Settles
  split
  · exact ⟨⟨⟨rfl, rfl, rfl⟩, rfl⟩, rfl⟩
  · next hd =>
    have hnd : node.body.isDir = false := hk ▸ Bool.eq_false_of_not_eq_true hd
    refine ⟨⟨⟨rfl, rfl, hnd.symm⟩, rfl⟩, ?_⟩
    exact (Body.children_of_not_dir hnd).symm

theorem publishes_insertCreatedRelayNode (parentId : Nat) (name : Bytes) (qid : Qid)
    (generation : UInt64) (relay : Bytes) :
    Publishes (insertCreatedRelayNode parentId name qid generation relay) := by
  intro s hs
  refine grown_ask_bind hs fun segments _ => ?_
  refine grown_ask_bind hs fun ⟨dirs, leaf⟩ _ => ?_
  refine grown_bind (grown_ensureDirs dirs s parentId hs) fun parent s' hg _ => ?_
  refine grown_ask_bind hg.sound fun child hc => ?_
  obtain ⟨hp, hl⟩ := childIn_ok hc
  cases child with
  | some id => exact publishes_createOver id qid generation relay s' hg.sound
  | none =>
    refine grown_ask_bind hg.sound fun _ hf => ?_
    have hb : (if qid.isDir then Body.dir .default else .writeRelay relay).children = ∅ := by
      split <;> rfl
    refine (grown_addNode hg.sound ?_).mono fun _ _ h => ⟨h.1, fun _ _ => trivial⟩
    exact ⟨hp, hl, unindexed_of_ok hf, hb⟩

private theorem publishes_noteRemoveRelay (relay : Option Bytes) :
    Publishes (.update (noteRemoveRelay relay)) := by
  refine publishes_update fun s hs => ?_
  cases relay with
  | some relay => exact .of_frame hs rfl rfl rfl rfl rfl rfl
  | none => exact .refl hs

theorem grown_insertPushedChildDirectory (hs : s.Sound) (parent : Nat) (name : Bytes)
    (metadata : PushedEntryMetadata) (read : Bytes) (removal : ChildDirectoryRemoval) :
    wp (insertPushedChildDirectory parent name metadata read removal)
      (Grown s fun id s' => s'.links parent name = some id) s := by
  refine grown_refuseIf_bind hs fun _ => ?_
  refine grown_ask_bind hs fun relay _ => ?_
  refine grown_ask_bind hs fun child hc => ?_
  obtain ⟨hp, hl⟩ := childIn_ok hc
  cases child with
  | some existing =>
    refine grown_ask_bind hs fun found _ => ?_
    split
    · refine grown_bind (publishes_noteRemoveRelay relay s hs) fun _ s' hg _ => ?_
      refine grown_bind (publishes_updateNode existing (fun _ => ?_) s' hg.sound)
        fun _ s'' hg' _ => grown_pure hg'.sound (hg'.links _ _ _ (hg.links _ _ _ hl))
      exact ⟨⟨⟨rfl, rfl, rfl⟩, rfl⟩, rfl⟩
    · exact grown_throw hs _
  | none =>
    refine grown_ask_bind hs fun _ hf => ?_
    refine grown_bind (grown_addNode hs ?_) fun id s' hg ha => ?_
    · exact ⟨hp, hl, unindexed_of_ok hf, rfl⟩
    · exact grown_bind (publishes_noteRemoveRelay relay s' hg.sound) fun _ s'' hg' _ =>
        grown_pure hg'.sound (hg'.links _ _ _ ha.link)

theorem publishes_insertPushedChildDirectory (parent : Nat) (name : Bytes)
    (metadata : PushedEntryMetadata) (read : Bytes) (removal : ChildDirectoryRemoval) :
    Publishes (insertPushedChildDirectory parent name metadata read removal) :=
  publishes_of_grown fun _ hs =>
    grown_insertPushedChildDirectory hs parent name metadata read removal

end State

end R9P.Front
