import R9P.Front.Model

/-!
# The links of a front

Library `Front`. The nodes of a front are a forest: the tree below the root, and the subtrees
that were taken out of it. What holds of the tables in every state, and how the insertion, the
moving and the taking out of a node change the links.
-/

namespace R9P.Front
open Std Base Wire Server

namespace Body

variable {body : Body}

theorem children_mapChildren (hdir : body.isDir = true)
    (f : ExtTreeMap Bytes Nat → ExtTreeMap Bytes Nat) :
    (body.mapChildren f).children = f body.children := by
  cases body with
  | dir directory => rfl
  | _ => cases hdir

theorem children_of_not_dir (hdir : body.isDir = false) : body.children = ∅ := by
  cases body with
  | dir directory => cases hdir
  | _ => rfl

@[simp] theorem isDir_mapChildren (body : Body)
    (f : ExtTreeMap Bytes Nat → ExtTreeMap Bytes Nat) :
    (body.mapChildren f).isDir = body.isDir := by
  cases body <;> rfl

theorem mem_childIds {c : Nat} :
    c ∈ body.childIds ↔ ∃ name : Bytes, body.children[name]? = some c := by
  unfold childIds
  rw [List.mem_map]
  constructor
  · rintro ⟨⟨name, child⟩, hmm, rfl⟩
    exact ⟨name, ExtTreeMap.mem_toList_iff_getElem?_eq_some.mp hmm⟩
  · rintro ⟨name, hname⟩
    exact ⟨(name, c), ExtTreeMap.mem_toList_iff_getElem?_eq_some.mpr hname, rfl⟩

end Body

namespace State

variable {s : State} {id i p c parent : Nat} {n name : Bytes} {node : Node}

/-- The child of a node under a name. -/
def links (s : State) : Links Nat Bytes := fun id name =>
  (s.nodes[id]?).bind fun node => node.body.children[name]?

theorem links_eq_some : s.links p name = some c ↔
    ∃ node, s.nodes[p]? = some node ∧ node.body.children[name]? = some c :=
  Option.bind_eq_some_iff

theorem links_of_node (h : s.nodes[p]? = some node) :
    s.links p name = node.body.children[name]? := by
  unfold links
  rw [h]
  rfl

theorem links_of_missing (h : s.nodes[p]? = none) : s.links p name = none := by
  unfold links
  rw [h]
  rfl

/-- A node is in the tree. -/
def Attached (s : State) (id : Nat) : Prop := s.links.Within ROOT_ID id

/-- The root of the tree, or of a subtree that was taken out. -/
def IsTop (s : State) (id : Nat) : Prop := id = ROOT_ID ∨ id ∈ s.detachedRoots

/-- The tables agree with each other. -/
structure Sound (s : State) : Prop where
  root : ∃ node, s.nodes[ROOT_ID]? = some node ∧ node.parent = ROOT_ID ∧ node.body.isDir = true
  rootKept : ROOT_ID ∉ s.detachedRoots
  fresh : ∀ (id : Nat) (node : Node), s.nodes[id]? = some node →
    id < s.nextId ∧ node.parent < s.nextId
  indexed : ∀ (q : UInt64) (id : Nat), s.qidIndex[q]? = some id ↔
    ∃ node, s.nodes[id]? = some node ∧ node.qidPath = q
  listed : ∀ (p : Nat) (name : Bytes) (c : Nat), s.links p name = some c →
    ¬ s.IsTop c ∧ ∃ child, s.nodes[c]? = some child ∧ child.parent = p ∧ child.name = name
  detached : ∀ d ∈ s.detachedRoots, ∃ node, s.nodes[d]? = some node
  covered : ∀ (id : Nat) (node : Node), s.nodes[id]? = some node →
    ∃ top, s.IsTop top ∧ s.links.Within top id
  referenced : ∀ (id count : Nat), s.fidReferences[id]? = some count →
    ∃ node, s.nodes[id]? = some node

variable {top : Nat}

namespace Sound

variable (hs : s.Sound)

include hs

theorem single : s.links.Single := by
  intro p n q m c hp hq
  obtain ⟨_, child, hc, rfl, rfl⟩ := hs.listed p n c hp
  obtain ⟨_, child', hc', rfl, rfl⟩ := hs.listed q m c hq
  cases hc.symm.trans hc'
  exact ⟨rfl, rfl⟩

theorem top_of_isTop (ht : s.IsTop id) : s.links.Top id := by
  intro p n hlink
  exact (hs.listed p n id hlink).1 ht

theorem rootTop : s.links.Top ROOT_ID := hs.top_of_isTop (.inl rfl)

theorem exists_of_isTop (ht : s.IsTop id) : ∃ node, s.nodes[id]? = some node := by
  rcases ht with rfl | hdt
  · obtain ⟨node, hnode, _⟩ := hs.root
    exact ⟨node, hnode⟩
  · exact hs.detached id hdt

/-- What lies below a node that exists exists. -/
theorem exists_of_within (hw : s.links.Within top id)
    (he : ∃ node, s.nodes[top]? = some node) : ∃ node, s.nodes[id]? = some node := by
  rcases hw.last with rfl | ⟨p, n, _, hlink⟩
  · exact he
  · obtain ⟨_, child, hc, _⟩ := hs.listed p n id hlink
    exact ⟨child, hc⟩

theorem exists_of_attached (h : s.Attached id) : ∃ node, s.nodes[id]? = some node :=
  hs.exists_of_within h (hs.exists_of_isTop (.inl rfl))

/-- A node that is not a top is in the children of its parent. -/
theorem linked (hnode : s.nodes[id]? = some node) (ht : ¬ s.IsTop id) :
    s.links node.parent node.name = some id := by
  obtain ⟨top, hist, hw⟩ := hs.covered id node hnode
  rcases hw.last with rfl | ⟨p, n, _, hlink⟩
  · exact absurd hist ht
  · obtain ⟨_, child, hc, rfl, rfl⟩ := hs.listed p n id hlink
    cases hnode.symm.trans hc
    exact hlink

/-- Nothing is both in the tree and in a subtree that was taken out. -/
theorem not_attached_of_within {d : Nat} (hd : d ∈ s.detachedRoots)
    (hw : s.links.Within d id) : ¬ s.Attached id := by
  intro ha
  have heq := hs.single.top_unique hs.rootTop (hs.top_of_isTop (.inr hd)) ha hw
  exact hs.rootKept (heq ▸ hd)

theorem missing_next : s.nodes[s.nextId]? = none := by
  cases hnode : s.nodes[s.nextId]? with
  | none => rfl
  | some node => exact absurd (hs.fresh s.nextId node hnode).1 (Nat.lt_irrefl _)

end Sound

/-! ### Changes of one node -/

theorem nodes_updateNode (s : State) (id : Nat) (f : Node → Node) (i : Nat) :
    (s.updateNode id f).nodes[i]? = if id = i then (s.nodes[i]?).map f else s.nodes[i]? := by
  unfold updateNode
  cases hnode : s.nodes[id]? with
  | none =>
    dsimp only
    split
    · next heq => rw [← heq, hnode]; rfl
    · rfl
  | some node =>
    rw [get_insert]
    split
    · next heq => rw [← heq, hnode]; rfl
    · rfl

variable {f : Node → Node}

theorem links_updateNode
    (hf : ∀ node, s.nodes[id]? = some node → (f node).body.children = node.body.children) :
    (s.updateNode id f).links = s.links := by
  funext p n
  unfold links
  rw [nodes_updateNode]
  split
  · next heq =>
    subst heq
    cases hnode : s.nodes[id]? with
    | none => rfl
    | some node =>
      show ((f node).body.children)[n]? = _
      rw [hf node hnode]
      rfl
  · rfl

/-- Where a node is, and whether it can have children. -/
def SamePlace (node node' : Node) : Prop :=
  node'.parent = node.parent ∧ node'.name = node.name ∧ node'.body.isDir = node.body.isDir

theorem SamePlace.refl (node : Node) : SamePlace node node := ⟨rfl, rfl, rfl⟩

/-- The same place and the same qid path. -/
def SameEntry (node node' : Node) : Prop := SamePlace node node' ∧ node'.qidPath = node.qidPath

theorem SameEntry.refl (node : Node) : SameEntry node node := ⟨.refl node, rfl⟩

theorem SameEntry.mapChildren (node : Node)
    (f : ExtTreeMap Bytes Nat → ExtTreeMap Bytes Nat) :
    SameEntry node (node.mapChildren f) := by
  refine ⟨⟨rfl, rfl, ?_⟩, rfl⟩
  exact Body.isDir_mapChildren node.body f

section Rel

variable {R : Node → Node → Prop} {before after : Option Node}

section
variable (h : Option.Rel R before after)
include h

theorem rel_forward (node : Node) (hnode : before = some node) :
    ∃ node', after = some node' ∧ R node node' := by
  subst hnode
  cases h with
  | some hr => exact ⟨_, rfl, hr⟩

theorem rel_back (node' : Node) (hnode : after = some node') :
    ∃ node, before = some node ∧ R node node' := by
  subst hnode
  cases h with
  | some hr => exact ⟨_, rfl, hr⟩

theorem rel_none (hn : before = none) : after = none := by
  subst hn
  cases h
  rfl

end

theorem rel_updateNode (hr : ∀ node, R node node)
    (hf : ∀ node, s.nodes[id]? = some node → R node (f node)) (i : Nat) :
    Option.Rel R s.nodes[i]? (s.updateNode id f).nodes[i]? := by
  rw [nodes_updateNode]
  split
  · next heq =>
    subst heq
    cases hnode : s.nodes[id]? with
    | none => exact .none
    | some node => exact .some (hf node hnode)
  · cases s.nodes[i]? with
    | none => exact .none
    | some node => exact .some (hr node)

theorem rel_mapChildren (s : State) (parent : Nat)
    (f : ExtTreeMap Bytes Nat → ExtTreeMap Bytes Nat) (i : Nat) :
    Option.Rel SameEntry s.nodes[i]? (s.updateNode parent (·.mapChildren f)).nodes[i]? :=
  rel_updateNode .refl (fun node _ => .mapChildren node f) i

end Rel

/-- Tables agree if they do with other nodes in the same places, and their index does. -/
theorem Sound.of_places {R : Node → Node → Prop} {nodes : Nat → Option Node}
    (hnd : ∀ i : Nat, Option.Rel R (nodes i) s.nodes[i]?)
    (hpl : ∀ {node node'}, R node node' → SamePlace node node')
    (root : ∃ node, nodes ROOT_ID = some node ∧ node.parent = ROOT_ID ∧ node.body.isDir = true)
    (rootKept : ROOT_ID ∉ s.detachedRoots)
    (fresh : ∀ id node, nodes id = some node → id < s.nextId ∧ node.parent < s.nextId)
    (indexed : ∀ (q : UInt64) (id : Nat), s.qidIndex[q]? = some id ↔
      ∃ node, s.nodes[id]? = some node ∧ node.qidPath = q)
    (listed : ∀ p name c, s.links p name = some c →
      ¬ s.IsTop c ∧ ∃ child, nodes c = some child ∧ child.parent = p ∧ child.name = name)
    (detached : ∀ d ∈ s.detachedRoots, ∃ node, nodes d = some node)
    (covered : ∀ id node, nodes id = some node → ∃ top, s.IsTop top ∧ s.links.Within top id)
    (referenced : ∀ (id count : Nat), s.fidReferences[id]? = some count →
      ∃ node, nodes id = some node) : s.Sound := by
  have he : ∀ i : Nat, (∃ node, nodes i = some node) → ∃ node, s.nodes[i]? = some node := by
    rintro i ⟨node, hnode⟩
    obtain ⟨node', hnode', _⟩ := rel_forward (hnd i) node hnode
    exact ⟨node', hnode'⟩
  constructor
  · obtain ⟨node, hnode, hparent, hdir⟩ := root
    obtain ⟨node', hnode', hr⟩ := rel_forward (hnd _) node hnode
    obtain ⟨hp, _, hd⟩ := hpl hr
    exact ⟨node', hnode', hp.trans hparent, hd.trans hdir⟩
  · exact rootKept
  · intro i node' hnode'
    obtain ⟨node, hnode, hr⟩ := rel_back (hnd i) node' hnode'
    rw [(hpl hr).1]
    exact fresh i node hnode
  · exact indexed
  · intro p n c hlink
    obtain ⟨ht, child, hc, hparent, hname⟩ := listed p n c hlink
    obtain ⟨child', hc', hr⟩ := rel_forward (hnd c) child hc
    obtain ⟨hp, hn, _⟩ := hpl hr
    exact ⟨ht, child', hc', hp.trans hparent, hn.trans hname⟩
  · exact fun d hd => he d (detached d hd)
  · intro i node' hnode'
    obtain ⟨node, hnode, _⟩ := rel_back (hnd i) node' hnode'
    exact covered i node hnode
  · exact fun i count hcn => he i (referenced i count hcn)

/-- Nodes with the same entry have the same qid paths. -/
theorem exists_qidPath {before after : Option Node} {q : UInt64}
    (h : Option.Rel SameEntry before after) :
    (∃ node, before = some node ∧ node.qidPath = q) ↔
      ∃ node, after = some node ∧ node.qidPath = q := by
  constructor
  · rintro ⟨node, hnode, hq⟩
    obtain ⟨node', hnode', _, hqd⟩ := rel_forward h node hnode
    exact ⟨node', hnode', hqd.trans hq⟩
  · rintro ⟨node', hnode', hq⟩
    obtain ⟨node, hnode, _, hqd⟩ := rel_back h node' hnode'
    exact ⟨node, hnode, hqd.symm.trans hq⟩

/-- Tables with the same nodes in the same places agree if their index does. -/
theorem Sound.transfer {s' : State} (hs : s.Sound) (hl : s'.links = s.links)
    (hdt : s'.detachedRoots = s.detachedRoots) (hnx : s'.nextId = s.nextId)
    (hr : s'.fidReferences = s.fidReferences)
    (hnd : ∀ i : Nat, Option.Rel SamePlace s.nodes[i]? s'.nodes[i]?)
    (hi : ∀ (q : UInt64) (id : Nat), s'.qidIndex[q]? = some id ↔
      ∃ node, s'.nodes[id]? = some node ∧ node.qidPath = q) : s'.Sound := by
  refine .of_places hnd id hs.root ?_ ?_ hi ?_ ?_ ?_ ?_
  · rw [hdt]
    exact hs.rootKept
  · rw [hnx]
    exact hs.fresh
  · unfold IsTop
    rw [hl, hdt]
    exact hs.listed
  · rw [hdt]
    exact hs.detached
  · unfold IsTop
    rw [hl, hdt]
    exact hs.covered
  · rw [hr]
    exact hs.referenced

/-- A change of a node that leaves its place, its qid path and its children alone. -/
def Settles (f : Node → Node) (node : Node) : Prop :=
  SameEntry node (f node) ∧ (f node).body.children = node.body.children

theorem Sound.updateNode (hs : s.Sound)
    (hf : ∀ node, s.nodes[id]? = some node → Settles f node) : (s.updateNode id f).Sound := by
  refine hs.transfer (links_updateNode fun node hnode => (hf node hnode).2) rfl rfl rfl
    (rel_updateNode .refl fun node hnode => (hf node hnode).1.1) ?_
  intro q i
  exact (hs.indexed q i).trans
    (exists_qidPath (rel_updateNode .refl (fun node hnode => (hf node hnode).1) i))

/-- Another qid path for a node, if no other node has it. -/
theorem Sound.replaced {qidPath : UInt64} (hs : s.Sound) (hnode : s.nodes[id]? = some node)
    (hf : ∀ owner, s.qidIndex[qidPath]? = some owner → owner = id) :
    ({ s with qidIndex := (s.qidIndex.erase node.qidPath).insert qidPath id }.updateNode id
      fun node => { node with qidPath := qidPath }).Sound := by
  have hl : ({ s with qidIndex := (s.qidIndex.erase node.qidPath).insert qidPath id }.updateNode
      id fun node => { node with qidPath := qidPath }).links = s.links :=
    links_updateNode fun _ _ => rfl
  refine hs.transfer hl rfl rfl rfl (fun i => rel_updateNode
    (s := { s with qidIndex := (s.qidIndex.erase node.qidPath).insert qidPath id })
    (f := fun node => { node with qidPath := qidPath }) SamePlace.refl
    (fun _ _ => ⟨rfl, rfl, rfl⟩) i) ?_
  intro q i
  show ((s.qidIndex.erase node.qidPath).insert qidPath id)[q]? = some i ↔ _
  rw [get_insert, get_erase, nodes_updateNode]
  by_cases hi : id = i
  · subst hi
    rw [if_pos rfl]
    constructor
    · intro hq
      refine ⟨{ node with qidPath := qidPath }, ?_, ?_⟩
      · rw [hnode]
        rfl
      · split at hq
        · next heq => exact heq
        · split at hq
          · cases hq
          · next ho =>
            obtain ⟨found, hfn, hqd⟩ := (hs.indexed q id).mp hq
            cases hnode.symm.trans hfn
            exact absurd hqd ho
    · rintro ⟨found, hfn, hq⟩
      rw [show ({ s with qidIndex := _ } : State).nodes = s.nodes from rfl, hnode] at hfn
      cases hfn
      rw [if_pos hq]
  · rw [if_neg hi]
    constructor
    · intro hq
      split at hq
      · cases hq
        exact absurd rfl hi
      · split at hq
        · cases hq
        · exact (hs.indexed q i).mp hq
    · intro hex
      have hq := (hs.indexed q i).mpr hex
      have hne : qidPath ≠ q := by
        rintro rfl
        exact hi (hf i hq).symm
      rw [if_neg hne, if_neg]
      · exact hq
      · intro ho
        have hmn := (hs.indexed q id).mpr ⟨node, hnode, ho⟩
        rw [hq] at hmn
        exact hi (Option.some.inj hmn).symm

/-! ### New nodes -/

theorem links_linkChild (hparent : s.nodes[parent]? = some node) (hdir : node.body.isDir = true) :
    (s.linkChild parent name id).links p n =
      if parent = p ∧ name = n then some id else s.links p n := by
  unfold links linkChild
  rw [nodes_updateNode]
  by_cases hp : parent = p
  · subst hp
    rw [if_pos rfl, hparent]
    show ((node.body.mapChildren (·.insert name id)).children)[n]? = _
    rw [Body.children_mapChildren hdir, get_insert]
    by_cases hn : name = n
    · rw [if_pos hn, if_pos ⟨rfl, hn⟩]
    · rw [if_neg hn, if_neg fun h => hn h.2]
      rfl
  · rw [if_neg hp, if_neg fun h => hp h.1]

/-- What a new node needs: a directory that does not have its name, no children yet, and a qid
path that no node has. -/
structure Insertable (s : State) (node : Node) : Prop where
  parent : ∃ directory, s.nodes[node.parent]? = some directory ∧ directory.body.isDir = true
  name : s.links node.parent node.name = none
  qidPath : s.qidIndex[node.qidPath]? = none
  children : node.body.children = ∅

section Added

variable (hs : s.Sound) (hnode : s.Insertable node)

include hs hnode

omit hs hnode in
theorem nodes_added (s : State) (node : Node) (i : Nat) : Option.Rel SameEntry
    (if s.nextId = i then some node else s.nodes[i]?) (s.added node).nodes[i]? := by
  have hr := rel_mapChildren
    { s with
      nextId := s.nextId + 1
      nodes := s.nodes.insert s.nextId node
      qidIndex := s.qidIndex.insert node.qidPath s.nextId }
    node.parent (·.insert node.name s.nextId) i
  dsimp only at hr
  rwa [get_insert] at hr

theorem links_added : (s.added node).links p n =
    if node.parent = p ∧ node.name = n then some s.nextId else s.links p n := by
  obtain ⟨directory, hdr, hdir⟩ := hnode.parent
  have hparent : ({ s with
      nextId := s.nextId + 1
      nodes := s.nodes.insert s.nextId node
      qidIndex := s.qidIndex.insert node.qidPath s.nextId } : State).nodes[node.parent]? =
        some directory := by
    dsimp only
    rw [get_insert, if_neg, hdr]
    intro heq
    rw [← heq, hs.missing_next] at hdr
    cases hdr
  unfold added
  rw [links_linkChild hparent hdir]
  congr 1
  unfold links
  dsimp only
  rw [get_insert]
  split
  · next heq =>
    subst heq
    rw [hs.missing_next]
    show node.body.children[n]? = none
    rw [hnode.children, ExtTreeMap.getElem?_empty]
  · rfl

theorem Sound.added : (s.added node).Sound := by
  have hnd := nodes_added s node
  have hl := fun p n => links_added hs hnode (p := p) (n := n)
  obtain ⟨directory, hdr, hdir⟩ := hnode.parent
  have hlt := (hs.fresh _ directory hdr).1
  have hm : ∀ p n c, s.links p n = some c → (s.added node).links p n = some c := by
    intro p n c hlink
    rw [hl, if_neg]
    · exact hlink
    · rintro ⟨rfl, rfl⟩
      rw [hnode.name] at hlink
      cases hlink
  have hf : ∀ {i : Nat} {found : Node}, s.nodes[i]? = some found →
      (if s.nextId = i then some node else s.nodes[i]?) = some found := by
    intro i found hfn
    rw [if_neg]
    · exact hfn
    · rintro rfl
      rw [hs.missing_next] at hfn
      cases hfn
  have hnw : ¬ s.IsTop s.nextId := by
    intro ht
    obtain ⟨found, hfn⟩ := hs.exists_of_isTop ht
    rw [hs.missing_next] at hfn
    cases hfn
  refine .of_places hnd And.left ?_ hs.rootKept ?_ ?_ ?_ ?_ ?_ ?_
  · obtain ⟨found, hfn, hrt⟩ := hs.root
    exact ⟨found, hf hfn, hrt⟩
  · intro i found hfn
    show i < s.nextId + 1 ∧ _ < s.nextId + 1
    split at hfn
    · next heq =>
      cases hfn
      omega
    · have := hs.fresh i found hfn
      omega
  · intro q i
    show (s.qidIndex.insert node.qidPath s.nextId)[q]? = some i ↔ _
    rw [← exists_qidPath (hnd i), get_insert]
    constructor
    · intro hq
      split at hq
      · next heq =>
        cases hq
        exact ⟨node, if_pos rfl, heq⟩
      · obtain ⟨found, hfn, hqd⟩ := (hs.indexed q i).mp hq
        exact ⟨found, hf hfn, hqd⟩
    · rintro ⟨found, hfn, hq⟩
      split at hfn
      · next heq =>
        cases hfn
        rw [if_pos hq, heq]
      · have hi := (hs.indexed q i).mpr ⟨found, hfn, hq⟩
        rw [if_neg]
        · exact hi
        · rintro rfl
          rw [hnode.qidPath] at hi
          cases hi
  · intro p n c hlink
    rw [hl] at hlink
    split at hlink
    · next heq =>
      cases hlink
      exact ⟨hnw, node, if_pos rfl, heq⟩
    · obtain ⟨ht, child, hc, hpn⟩ := hs.listed p n c hlink
      exact ⟨ht, child, hf hc, hpn⟩
  · intro d hd
    obtain ⟨found, hfn⟩ := hs.detached d hd
    exact ⟨found, hf hfn⟩
  · intro i found hfn
    split at hfn
    · next heq =>
      subst heq
      obtain ⟨top, ht, hw⟩ := hs.covered _ directory hdr
      refine ⟨top, ht, (hw.mono hm).child (n := node.name) ?_⟩
      rw [hl, if_pos ⟨rfl, rfl⟩]
    · obtain ⟨top, ht, hw⟩ := hs.covered i found hfn
      exact ⟨top, ht, hw.mono hm⟩
  · intro i count hcn
    obtain ⟨found, hfn⟩ := hs.referenced i count hcn
    exact ⟨found, hf hfn⟩

end Added

/-! ### Taking a subtree out -/

theorem nodes_unlinkChild (i : Nat) :
    Option.Rel SameEntry s.nodes[i]? (s.unlinkChild parent name).nodes[i]? :=
  rel_updateNode .refl (fun directory _ => .mapChildren directory _) i

theorem links_unlinkChild : (s.unlinkChild parent name).links p n =
    if parent = p ∧ name = n then none else s.links p n := by
  unfold links unlinkChild
  rw [nodes_updateNode]
  by_cases hp : parent = p
  · subst hp
    rw [if_pos rfl]
    cases hparent : s.nodes[parent]? with
    | none =>
      show none = _
      split <;> rfl
    | some directory =>
      show ((directory.body.mapChildren (·.erase name)).children)[n]? = _
      cases hdir : directory.body.isDir with
      | true =>
        rw [Body.children_mapChildren hdir, get_erase]
        by_cases hn : name = n
        · rw [if_pos hn, if_pos ⟨rfl, hn⟩]
        · rw [if_neg hn, if_neg fun h => hn h.2]
          rfl
      | false =>
        have ha : (directory.body.mapChildren (·.erase name)).isDir = false :=
          (Body.isDir_mapChildren _ _).trans hdir
        rw [Body.children_of_not_dir ha, ExtTreeMap.getElem?_empty]
        show none = if _ then none else directory.body.children[n]?
        rw [Body.children_of_not_dir hdir, ExtTreeMap.getElem?_empty]
        split <;> rfl
  · rw [if_neg hp, if_neg fun h => hp h.1]

/-- A node is struck out of its parent and becomes a top of its own. -/
def cut (s : State) (parent : Nat) (name : Bytes) (id : Nat) : State :=
  { s.unlinkChild parent name with detachedRoots := s.detachedRoots.insert id }

theorem links_cut : (s.cut parent name id).links p n =
    if parent = p ∧ name = n then none else s.links p n := links_unlinkChild

section Cut

variable (hs : s.Sound) (hlink : s.links parent name = some id)

include hs hlink

omit hs in
/-- The cut loses the link to the node that is cut off. -/
theorem links_cut_or {c : Nat} (hpn : s.links p n = some c) :
    (s.cut parent name id).links p n = some c ∨ c = id := by
  rw [links_cut]
  split
  · next heq =>
    obtain ⟨rfl, rfl⟩ := heq
    exact .inr (Option.some.inj (hpn.symm.trans hlink))
  · exact .inl hpn

omit hs in
/-- What the cut leaves below a node, or below the node that was cut off. -/
theorem within_cut (h : s.links.Within top i) :
    (s.cut parent name id).links.Within top i ∨ (s.cut parent name id).links.Within id i :=
  h.cut fun _ _ _ => links_cut_or hlink

omit hs hlink in
theorem links_of_cut {c : Nat} (hpn : (s.cut parent name id).links p n = some c) :
    s.links p n = some c := by
  rw [links_cut] at hpn
  split at hpn
  · cases hpn
  · exact hpn

omit hs hlink in
theorem within_of_cut (h : (s.cut parent name id).links.Within top i) :
    s.links.Within top i := h.mono fun _ _ _ => links_of_cut

omit hs hlink in
theorem isTop_cut : (s.cut parent name id).IsTop i ↔ s.IsTop i ∨ i = id := by
  unfold IsTop cut
  dsimp only
  rw [mem_set_insert_eq]
  tauto

theorem Sound.cut : (s.cut parent name id).Sound := by
  have hnd : ∀ i : Nat, Option.Rel SameEntry s.nodes[i]? (s.cut parent name id).nodes[i]? :=
    nodes_unlinkChild
  obtain ⟨hi, child, hc, _⟩ := hs.listed parent name id hlink
  refine .of_places hnd And.left hs.root ?_ hs.fresh
    (fun q i => (hs.indexed q i).trans (exists_qidPath (hnd i))) ?_ ?_ ?_ hs.referenced
  · show ROOT_ID ∉ s.detachedRoots.insert id
    rw [mem_set_insert_eq]
    rintro (rfl | hr)
    · exact hi (.inl rfl)
    · exact hs.rootKept hr
  · intro p n c hpn
    rw [links_cut] at hpn
    split at hpn
    · cases hpn
    · next hne =>
      obtain ⟨ht, hfn⟩ := hs.listed p n c hpn
      refine ⟨?_, hfn⟩
      rw [isTop_cut]
      rintro (h | rfl)
      · exact ht h
      · exact hne (hs.single _ _ _ _ c hlink hpn)
  · intro d hd
    rcases mem_set_insert_eq.mp hd with rfl | hd
    · exact ⟨child, hc⟩
    · exact hs.detached d hd
  · intro i node hnode
    obtain ⟨top, ht, hw⟩ := hs.covered i node hnode
    rcases within_cut hlink hw with h | h
    · exact ⟨top, isTop_cut.mpr (.inl ht), h⟩
    · exact ⟨id, isTop_cut.mpr (.inr rfl), h⟩

end Cut

/-! ### Putting a subtree back -/

/-- A top gets a place in the tree. -/
def graft (s : State) (id parent : Nat) (name : Bytes) : State :=
  { (s.updateNode id fun node => { node with parent := parent, name := name }).linkChild parent name
      id with
    detachedRoots := s.detachedRoots.erase id }

section Graft

variable (hs : s.Sound) (hid : id ∈ s.detachedRoots) (hparent : s.Attached parent)
  (hdir : ∃ directory, s.nodes[parent]? = some directory ∧ directory.body.isDir = true)
  (hname : s.links parent name = none)

include hs hid hparent hdir hname

omit hdir hname in
theorem ne_of_attached : id ≠ parent := by
  rintro rfl
  exact hs.not_attached_of_within hid (.refl s.links id) hparent

omit hs hid hparent hdir hname in
theorem nodes_graft (s : State) (id parent : Nat) (name : Bytes) (i : Nat) : Option.Rel SameEntry
    (if id = i then (s.nodes[i]?).map fun node => { node with parent := parent, name := name }
      else s.nodes[i]?) (s.graft id parent name).nodes[i]? := by
  have hr := rel_mapChildren
    (s.updateNode id fun node => { node with parent := parent, name := name }) parent
    (·.insert name id) i
  rwa [nodes_updateNode] at hr

omit hname in
theorem links_graft : (s.graft id parent name).links p n =
    if parent = p ∧ name = n then some id else s.links p n := by
  obtain ⟨directory, hdr, hdir⟩ := hdir
  have hne := ne_of_attached hs hid hparent
  have hm : (s.updateNode id fun node => { node with parent := parent, name := name }).nodes[
      parent]? = some directory := by
    rw [nodes_updateNode, if_neg hne, hdr]
  have hsm : (s.updateNode id fun node => { node with parent := parent, name := name }).links =
      s.links := links_updateNode fun _ _ => rfl
  refine (links_linkChild hm hdir).trans ?_
  rw [hsm]

theorem links_graft_of {c : Nat} (hlink : s.links p n = some c) :
    (s.graft id parent name).links p n = some c := by
  rw [links_graft hs hid hparent hdir, if_neg]
  · exact hlink
  · rintro ⟨rfl, rfl⟩
    rw [hname] at hlink
    cases hlink

theorem within_graft (h : s.links.Within top i) : (s.graft id parent name).links.Within top i :=
  h.mono fun _ _ _ hlink => links_graft_of hs hid hparent hdir hname hlink

theorem attached_graft : (s.graft id parent name).Attached id := by
  refine (within_graft hs hid hparent hdir hname hparent).child (n := name) ?_
  rw [links_graft hs hid hparent hdir, if_pos ⟨rfl, rfl⟩]

theorem Sound.graft : (s.graft id parent name).Sound := by
  have hnd := nodes_graft s id parent name
  have hr : id ≠ ROOT_ID := fun heq => hs.rootKept (heq ▸ hid)
  obtain ⟨moved, hm⟩ := hs.detached id hid
  obtain ⟨found, hfn⟩ := hs.exists_of_attached hparent
  have hlt := (hs.fresh parent found hfn).1
  -- Nodes other than the one that moves keep their places.
  have hf : ∀ {i : Nat} {node : Node}, id ≠ i → s.nodes[i]? = some node →
      (if id = i then (s.nodes[i]?).map fun node => { node with parent := parent, name := name }
        else s.nodes[i]?) = some node := by
    intro i node hi hnode
    rw [if_neg hi]
    exact hnode
  have hmn : (if id = id then (s.nodes[id]?).map fun node =>
      { node with parent := parent, name := name } else s.nodes[id]?) =
        some { moved with parent := parent, name := name } := by
    rw [if_pos rfl, hm]
    rfl
  have he : ∀ i : Nat, (∃ node, s.nodes[i]? = some node) → ∃ node, (if id = i then
      (s.nodes[i]?).map fun node => { node with parent := parent, name := name }
        else s.nodes[i]?) = some node := by
    rintro i ⟨node, hnode⟩
    by_cases hi : id = i
    · subst hi
      exact ⟨_, hmn⟩
    · exact ⟨node, hf hi hnode⟩
  have hb : ∀ (i : Nat) (node' : Node), (if id = i then (s.nodes[i]?).map fun node =>
      { node with parent := parent, name := name } else s.nodes[i]?) = some node' →
      ∃ node, s.nodes[i]? = some node ∧ node'.qidPath = node.qidPath ∧
        (node'.parent = node.parent ∨ node'.parent = parent) := by
    intro i node' hnode'
    split at hnode'
    · obtain ⟨node, hnode, rfl⟩ := Option.map_eq_some_iff.mp hnode'
      exact ⟨node, hnode, rfl, .inr rfl⟩
    · exact ⟨node', hnode', rfl, .inl rfl⟩
  have htp : ∀ i, (s.graft id parent name).IsTop i ↔ s.IsTop i ∧ i ≠ id := by
    intro i
    show i = ROOT_ID ∨ i ∈ s.detachedRoots.erase id ↔ _
    rw [mem_set_erase_eq]
    constructor
    · rintro (rfl | ⟨hne, hi⟩)
      · exact ⟨.inl rfl, hr.symm⟩
      · exact ⟨.inr hi, hne.symm⟩
    · rintro ⟨rfl | hi, hne⟩
      · exact .inl rfl
      · exact .inr ⟨hne.symm, hi⟩
  refine .of_places hnd And.left ?_ ?_ ?_ ?_ ?_ ?_ ?_ ?_
  · obtain ⟨node, hnode, hrt⟩ := hs.root
    exact ⟨node, hf hr hnode, hrt⟩
  · intro hmm
    exact hs.rootKept (mem_set_erase_eq.mp hmm).2
  · intro i node' hnode'
    obtain ⟨node, hnode, _, hp⟩ := hb i node' hnode'
    have ho := hs.fresh i node hnode
    refine ⟨ho.1, ?_⟩
    rcases hp with hp | hp
    · rw [hp]
      exact ho.2
    · rw [hp]
      exact hlt
  · intro q i
    refine (hs.indexed q i).trans ?_
    rw [← exists_qidPath (hnd i)]
    constructor
    · rintro ⟨node, hnode, hq⟩
      obtain ⟨node', hnode'⟩ := he i ⟨node, hnode⟩
      obtain ⟨node₁, hnode₁, hq₁, _⟩ := hb i node' hnode'
      cases hnode.symm.trans hnode₁
      exact ⟨node', hnode', hq₁.trans hq⟩
    · rintro ⟨node', hnode', hq⟩
      obtain ⟨node, hnode, hq₁, _⟩ := hb i node' hnode'
      exact ⟨node, hnode, hq₁.symm.trans hq⟩
  · intro p n c hlink
    rw [links_graft hs hid hparent hdir] at hlink
    rw [htp]
    split at hlink
    · next heq =>
      cases hlink
      exact ⟨fun h => h.2 rfl, _, hmn, heq⟩
    · obtain ⟨ht, child, hc, hpn⟩ := hs.listed p n c hlink
      have hce : id ≠ c := by
        rintro rfl
        exact ht (.inr hid)
      exact ⟨fun h => ht h.1, child, hf hce hc, hpn⟩
  · intro d hd
    exact he d (hs.detached d (mem_set_erase_eq.mp hd).2)
  · intro i node' hnode'
    obtain ⟨node, hnode, _⟩ := hb i node' hnode'
    obtain ⟨top, ht, hw⟩ := hs.covered i node hnode
    have hw' := within_graft hs hid hparent hdir hname hw
    by_cases heq : top = id
    · subst heq
      exact ⟨ROOT_ID, .inl rfl, (attached_graft hs hid hparent hdir hname).trans hw'⟩
    · exact ⟨top, (htp top).mpr ⟨ht, heq⟩, hw'⟩
  · intro i count hcn
    exact he i (hs.referenced i count hcn)

end Graft

end State

end R9P.Front
