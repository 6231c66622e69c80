import R9P.Front.Structure

/-!
# What clients do to the tree of an owner

Library `Front`. A node that was taken out stays, with its qid path, for as long as a fid refers
to it, so that what clients hold decides whether a later push finds its qid path taken, or puts the
old node back. Where the qid paths of the nodes outside the tree are none of those that an
operation pushes or gives out next, an owner has the same results, and publishes the same nodes,
as without any client.
-/

namespace R9P.Front
open Std Base Base.Checked Wire Server State

namespace State

variable {s s' t : State} {id i p c parent k : Nat} {n name : Bytes} {node : Node} {q : UInt64}
  {pushed : Option UInt64}

/-! ### A front without clients -/

/-- A front without clients has the tree of a front with clients, and nothing outside it. -/
structure Mirror (s t : State) : Prop where
  firm : s.Firm
  alone : t.Firm
  unreferenced : t.fidReferences = ∅
  next : t.nextId = s.nextId
  capacity : t.logCapacity = s.logCapacity
  nodes : ∀ i : Nat, s.Attached i → t.nodes[i]? = s.nodes[i]?

namespace Mirror

section

variable (h : s.Mirror t)
include h

private theorem links (hp : s.Attached p) : t.links p n = s.links p n := by
  unfold State.links
  rw [h.nodes p hp]

theorem follow (names : List Bytes) : t.links.follow ROOT_ID names = s.links.follow ROOT_ID names :=
  Links.follow_congr fun _ hp _ => h.links hp

private theorem attached : t.Attached i ↔ s.Attached i :=
  exists_congr fun names => by rw [h.follow names]

/-- All nodes of a front without clients are in its tree. -/
theorem only (hn : t.nodes[i]? = some node) : s.Attached i := by
  obtain ⟨top, ht, hw⟩ := h.alone.sound.covered i node hn
  rcases ht with rfl | hd
  · exact h.attached.mp hw
  · obtain ⟨_, _, hr⟩ := h.alone.held top hd
    rw [h.unreferenced] at hr
    exact absurd hr ExtTreeMap.not_mem_empty

private theorem indexed : t.qidIndex[q]? = some i ↔ s.qidIndex[q]? = some i ∧ s.Attached i := by
  rw [h.alone.sound.indexed, h.firm.sound.indexed]
  constructor
  · rintro ⟨node, hn, hq⟩
    have hi := h.only hn
    exact ⟨⟨node, (h.nodes i hi).symm.trans hn, hq⟩, hi⟩
  · rintro ⟨⟨node, hn, hq⟩, hi⟩
    exact ⟨node, (h.nodes i hi).trans hn, hq⟩

private theorem unindexed (hf : s.qidIndex[q]? = none) : t.qidIndex[q]? = none := by
  cases hfn : t.qidIndex[q]? with
  | none => rfl
  | some i =>
    rw [(h.indexed.mp hfn).1] at hf
    cases hf

end

end Mirror

/-! ### Qid paths -/

/-- The nodes outside the tree have other qid paths than the one that is pushed, and than those
that are given out next, up to a number of nodes. -/
def Unused (s : State) (pushed : Option UInt64) (count : Nat) : Prop :=
  ∀ (i : Nat) (node : Node), s.nodes[i]? = some node → ¬ s.Attached i →
    pushed ≠ some node.qidPath ∧
      ∀ j ≤ s.qidIndex.size + 2 * count, node.qidPath ≠ .ofNat (s.nextId + j)

private theorem availableFrom_congr (fuel : Nat) : ∀ start : Nat, (∀ j < fuel,
    s.qidIndex.contains (.ofNat (start + j)) = t.qidIndex.contains (.ofNat (start + j))) →
      s.availableFrom fuel (.ofNat start) = t.availableFrom fuel (.ofNat start) := by
  induction fuel with
  | zero =>
    intro start _
    rfl
  | succ fuel ih =>
    intro start h
    have hr := ih (start + 1) fun j hj => by
      have hnx := h (j + 1) (Nat.succ_lt_succ hj)
      rwa [show start + (j + 1) = start + 1 + j by omega] at hnx
    unfold availableFrom
    rw [show s.qidIndex.contains (.ofNat start) = t.qidIndex.contains (.ofNat start) from
      h 0 (Nat.succ_pos fuel), show UInt64.ofNat start + 1 = .ofNat (start + 1) from
        (UInt64.ofNat_add start 1).symm, hr]

/-- The entries of the index from a qid path on. -/
def entriesFrom (s : State) (q : UInt64) : Finset UInt64 :=
  (keySet s.qidIndex).filter (q.toNat ≤ ·.toNat)

theorem card_entriesFrom_le (s : State) (q : UInt64) : (s.entriesFrom q).card ≤ s.qidIndex.size :=
    by
  rw [← card_keySet]
  exact Finset.card_filter_le _ _

theorem card_entriesFrom_succ (hq : s.qidIndex.contains q = true) (hmx : q ≠ 0xffffffffffffffff) :
    (s.entriesFrom (q + 1)).card < (s.entriesFrom q).card := by
  have hlt : (q + 1).toNat = q.toNat + 1 := by
    have hb := q.toNat_lt
    have hne : q.toNat ≠ 0xffffffffffffffff := fun h => hmx (UInt64.toNat_inj.mp h)
    rw [UInt64.toNat_add, UInt64.toNat_one, Nat.mod_eq_of_lt (by omega)]
  refine Finset.card_lt_card ((Finset.ssubset_iff_of_subset ?_).mpr ⟨q, ?_, ?_⟩)
  · intro other ho
    obtain ⟨hm, hle⟩ := Finset.mem_filter.mp ho
    exact Finset.mem_filter.mpr ⟨hm, by omega⟩
  · exact Finset.mem_filter.mpr ⟨mem_keySet.mpr (ExtTreeMap.mem_iff_contains.mpr hq), le_rfl⟩
  · intro hm
    have hle := (Finset.mem_filter.mp hm).2
    omega

/-- The search for a free qid path needs no more rounds than there are entries. -/
theorem availableFrom_enough (fuel : Nat) : ∀ (q : UInt64) (more : Nat),
    (s.entriesFrom q).card < fuel → s.availableFrom (fuel + more) q = s.availableFrom fuel q := by
  induction fuel with
  | zero =>
    intro q more h
    exact absurd h (Nat.not_lt_zero _)
  | succ fuel ih =>
    intro q more h
    rw [Nat.add_right_comm]
    unfold availableFrom
    split
    · next hq =>
      split
      · rfl
      · next hmx =>
        have hl := card_entriesFrom_succ hq hmx
        exact ih (q + 1) more (by omega)
    · rfl

/-- The next free qid path does not depend on the nodes outside the tree. -/
theorem Mirror.available (h : s.Mirror t) (hun : s.Unused pushed k) :
    t.nextAvailableQidPath (.ofNat t.nextId) = s.nextAvailableQidPath (.ofNat s.nextId) := by
  have hc : ∀ j < s.qidIndex.size + 1, s.qidIndex.contains (.ofNat (s.nextId + j)) =
      t.qidIndex.contains (.ofNat (s.nextId + j)) := by
    intro j hj
    rw [ExtTreeMap.contains_eq_isSome_getElem?, ExtTreeMap.contains_eq_isSome_getElem?]
    cases hfn : s.qidIndex[UInt64.ofNat (s.nextId + j)]? with
    | none => rw [h.unindexed hfn]
    | some i =>
      obtain ⟨node, hn, hq⟩ := (h.firm.sound.indexed _ i).mp hfn
      have hi : s.Attached i := by
        by_contra hnt
        exact (hun i node hn hnt).2 j (by omega) hq
      rw [h.indexed.mpr ⟨hfn, hi⟩]
  have hsz : t.qidIndex.size ≤ s.qidIndex.size := by
    rw [← card_keySet, ← card_keySet]
    refine Finset.card_le_card fun q hq => ?_
    rw [mem_keySet, ExtTreeMap.mem_iff_isSome_getElem?] at hq ⊢
    obtain ⟨i, hi⟩ := Option.isSome_iff_exists.mp hq
    rw [(h.indexed.mp hi).1]
    rfl
  unfold nextAvailableQidPath
  rw [h.next, availableFrom_congr _ s.nextId hc]
  have he := availableFrom_enough (t.qidIndex.size + 1) (.ofNat s.nextId)
    (s.qidIndex.size - t.qidIndex.size) (Nat.lt_succ_of_le (t.card_entriesFrom_le _))
  rw [← he]
  congr 1
  omega

/-! ### Changes of both -/

private theorem nodes_added_eq (s : State) (node : Node) (i : Nat) : (s.added node).nodes[i]? =
    if node.parent = i then
      (if s.nextId = i then some node else s.nodes[i]?).map
        (·.mapChildren (·.insert node.name s.nextId))
    else if s.nextId = i then some node else s.nodes[i]? := by
  unfold added linkChild
  rw [nodes_updateNode]
  rw [get_insert]

section
variable (h : s.Mirror t) (hn : s.Insertable node) (hpr : s.Attached node.parent)
include h hn hpr

private theorem Mirror.insertable : t.Insertable node := by
  obtain ⟨directory, hdr, hd⟩ := hn.parent
  exact ⟨⟨directory, (h.nodes _ hpr).trans hdr, hd⟩,
    (h.links hpr).trans hn.name, h.unindexed hn.qidPath, hn.children⟩

private theorem Mirror.added : (s.added node).Mirror (t.added node) := by
  have hg := Grows.added h.firm.sound hn
  have hg' := Grows.added h.alone.sound (h.insertable hn hpr)
  refine ⟨hg.firm h.firm, hg'.firm h.alone, h.unreferenced, ?_, h.capacity, fun i hi => ?_⟩
  · show t.nextId + 1 = s.nextId + 1
    rw [h.next]
  · rw [nodes_added_eq, nodes_added_eq, h.next]
    by_cases heq : s.nextId = i
    · rw [if_pos heq, if_pos heq]
    · have hlt : i < s.nextId := by
        obtain ⟨found, hfn⟩ := hg.sound.exists_of_attached hi
        have hb : i < s.nextId + 1 := (hg.sound.fresh i found hfn).1
        omega
      rw [if_neg heq, if_neg heq, h.nodes i (hg.attached_back h.firm.sound hi hlt)]

end

private theorem Unused.mono {count : Nat} (h : s.Unused pushed count) (hle : k ≤ count) :
    s.Unused pushed k := by
  intro i node hn hnt
  obtain ⟨hp, hnx⟩ := h i node hn hnt
  exact ⟨hp, fun j hj => hnx j (by omega)⟩

private theorem Unused.added (h : s.Unused pushed (k + 1)) (hs : s.Sound) (hn : s.Insertable node)
    (hpr : s.Attached node.parent) : (s.added node).Unused pushed k := by
  have hg := Grows.added hs hn
  intro i found' hfn' hnt
  obtain ⟨found, hfn, _, hq⟩ := rel_back (nodes_added s node i) found' hfn'
  split at hfn
  · next heq =>
    refine absurd ((hg.attached hpr).child (n := node.name) ?_) hnt
    rw [links_added hs hn, if_pos ⟨rfl, rfl⟩, heq]
  · obtain ⟨hp, hnx⟩ := h i found hfn fun hi => hnt (hg.attached hi)
    rw [hq]
    refine ⟨hp, fun j hj => ?_⟩
    have hsz : (s.added node).qidIndex.size ≤ s.qidIndex.size + 1 :=
      ExtTreeMap.size_insert_le
    have hl := hnx (j + 1) (by omega)
    rwa [show s.nextId + (j + 1) = (s.added node).nextId + j from by
      show s.nextId + (j + 1) = s.nextId + 1 + j
      omega] at hl

section
variable (h : s.Mirror t)
include h

/-- A change of one node in place. -/
theorem Mirror.grown {u : State} (hs : s.Grows s') (ht : t.Grows u) (hnx : s'.nextId = s.nextId)
    (hnx' : u.nextId = t.nextId)
    (hc : s'.logCapacity = s.logCapacity) (hc' : u.logCapacity = t.logCapacity)
    (hnd : ∀ i : Nat, t.nodes[i]? = s.nodes[i]? → u.nodes[i]? = s'.nodes[i]?) : s'.Mirror u := by
  refine ⟨hs.firm h.firm, ht.firm h.alone, ht.references.trans h.unreferenced,
    hnx'.trans (h.next.trans hnx.symm), hc'.trans (h.capacity.trans hc.symm),
    fun i hi => hnd i (h.nodes i (hs.attached_back h.firm.sound hi ?_))⟩
  obtain ⟨found, hfn⟩ := hs.sound.exists_of_attached hi
  have hlt := (hs.sound.fresh i found hfn).1
  rwa [hnx] at hlt

private theorem Mirror.updateNode {f : Node → Node}
    (hf : ∀ node, s.nodes[id]? = some node → Settles f node) :
    (s.updateNode id f).Mirror (t.updateNode id f) := by
  refine h.grown (.updateNode h.firm.sound hf)
    (.updateNode h.alone.sound fun node hn => hf node ?_) rfl rfl rfl rfl fun i hsm => ?_
  · exact (h.nodes id (h.only hn)).symm.trans hn
  · rw [nodes_updateNode, nodes_updateNode, hsm]

private theorem Mirror.replaced (hid : s.Attached id) (hn : s.nodes[id]? = some node)
    (hf : ∀ owner, s.qidIndex[q]? = some owner → owner = id) :
    ({ s with qidIndex := (s.qidIndex.erase node.qidPath).insert q id }.updateNode id
      fun node => { node with qidPath := q }).Mirror
    ({ t with qidIndex := (t.qidIndex.erase node.qidPath).insert q id }.updateNode id
      fun node => { node with qidPath := q }) := by
  refine h.grown (.replaced h.firm.sound hn hf)
    (.replaced h.alone.sound ((h.nodes id hid).trans hn) fun owner ho => ?_)
    rfl rfl rfl rfl fun i hsm => ?_
  · exact hf owner (h.indexed.mp ho).1
  · rw [nodes_updateNode, nodes_updateNode]
    show (if id = i then (t.nodes[i]?).map _ else t.nodes[i]?) =
      if id = i then (s.nodes[i]?).map _ else s.nodes[i]?
    rw [hsm]

/-- A subtree of the tree is taken out of both. -/
theorem Mirror.detach (hl : s.links parent name = some id) (hpr : s.Attached parent) :
    (s.detach parent name id).Mirror (t.detach parent name id) := by
  have hl' : t.links parent name = some id := (h.links hpr).trans hl
  have hpr' := h.attached.mpr hpr
  obtain ⟨ht, _⟩ := took_detach h.firm hl hpr (.ok ())
  obtain ⟨ht', _⟩ := took_detach h.alone hl' hpr' (.ok ())
  obtain ⟨f, hf, heq, _⟩ := h.firm.sound.detach hl
  obtain ⟨f', hf', heq', _⟩ := h.alone.sound.detach hl'
  refine ⟨ht.firm, ht'.firm, ht'.references.trans h.unreferenced, ?_, ?_, fun i hi => ?_⟩
  · rw [heq, heq']
    exact h.next
  · rw [heq, heq']
    exact h.capacity
  · -- What is left of the tree is there in both, and changed in the parent only.
    rw [heq] at hi
    have hc : (s.cut parent name id).Attached i := within_of_keeping hi
    have ho : s.Attached i := within_of_cut hc
    have hc' : (t.cut parent name id).Attached i := by
      have hsm : ∀ p, (s.cut parent name id).Attached p → ∀ n,
          (t.cut parent name id).links p n = (s.cut parent name id).links p n := by
        intro p hp n
        rw [links_cut, links_cut, h.links (within_of_cut hp)]
      obtain ⟨names, hn⟩ := hc
      exact ⟨names, (Links.follow_congr hsm).trans hn⟩
    rw [heq, heq', nodes_keeping, nodes_keeping, hf.attached hc, hf'.attached hc']
    show (t.unlinkChild parent name).nodes[i]? = (s.unlinkChild parent name).nodes[i]?
    unfold unlinkChild
    rw [nodes_updateNode, nodes_updateNode, h.nodes i ho]

end

/-! ### Operations on both -/

section Mirrors

variable {α β : Type}

/-- The trees are the same, and a result satisfies a property. -/
def Mirrors (P : α → State → Prop) (r : Result α) (s t : State) : Prop :=
  s.Mirror t ∧ ∀ a, r = .ok a → P a s

variable {P : α → State → Prop} {Q : β → State → Prop} {f : α → Checked State Error β}

private theorem mirrors_pure {a : α} (h : s.Mirror t) (ha : P a s) :
    both (pure a : Checked State Error α) (Mirrors P) s t := by
  refine ⟨rfl, h, fun b hb => ?_⟩
  cases hb
  exact ha

private theorem mirrors_throw (h : s.Mirror t) (e : Error) :
    both (throw e : Checked State Error α) (Mirrors P) s t :=
  ⟨rfl, h, fun _ he => nomatch he⟩

theorem mirrors_update {f : State → State} {P : Unit → State → Prop} (h : (f s).Mirror (f t))
    (hP : P () (f s)) : both (.update f : Checked State Error Unit) (Mirrors P) s t :=
  ⟨rfl, h, fun _ _ => hP⟩

private theorem mirrors_bind {x : Checked State Error α}
    (hx : both x (Mirrors P) s t)
    (hf : ∀ a s' t', s'.Mirror t' → P a s' → both (f a) (Mirrors Q) s' t') :
    both (x >>= f) (Mirrors Q) s t :=
  both_bind hx (fun _ _ _ h => ⟨h.1, fun _ he => nomatch he⟩)
    fun a s' t' h => hf a s' t' h.1 (h.2 a rfl)

private theorem mirrors_ask_bind (h : s.Mirror t) {g : State → Result α}
    (hsm : g s = g t) (hf : ∀ a, g s = .ok a → both (f a) (Mirrors Q) s t) :
    both (.ask g >>= f) (Mirrors Q) s t :=
  both_ask_bind hsm (fun _ => ⟨h, fun _ he => nomatch he⟩) hf

private theorem mirrors_refuseIf_bind (h : s.Mirror t) {condition : Bool} {e : Error}
    {f : Unit → Checked State Error β} (hf : condition = false → both (f ()) (Mirrors Q) s t) :
    both (.refuseIf condition e >>= f) (Mirrors Q) s t :=
  both_refuseIf_bind ⟨h, fun _ he => nomatch he⟩ hf

end Mirrors

section
variable (h : s.Mirror t)
include h

private theorem Mirror.node_eq (hid : s.Attached id) : s.node id = t.node id := by
  unfold State.node
  rw [h.nodes id hid]

private theorem Mirror.childIn_eq (hpr : s.Attached parent) :
    s.childIn parent name = t.childIn parent name := by
  unfold State.childIn
  rw [h.node_eq hpr]

private theorem mirrors_addNode (hn : s.Insertable node) (hpr : s.Attached node.parent)
    (hun : s.Unused pushed (k + 1)) :
    both (addNode node) (Mirrors fun id s' => s'.Attached id ∧ s'.Unused pushed k) s t := by
  have hg := Grows.added h.firm.sound hn
  refine ⟨congrArg Except.ok h.next.symm, h.added hn hpr, fun id hid => ?_⟩
  cases hid
  refine ⟨(hg.attached hpr).child (n := node.name) ?_, hun.added h.firm.sound hn hpr⟩
  exact (links_added h.firm.sound hn).trans (if_pos ⟨rfl, rfl⟩)

private theorem mirrors_addPlaced {body : Body} (hpr : s.Attached parent) (hd : s.DirAt parent)
    (hn : s.links parent name = none) (hb : body.children = ∅)
    (hun : s.Unused pushed (k + 1)) : both (addPlaced name parent body)
      (Mirrors fun id s' => s'.Attached id ∧ s'.Unused pushed k) s t := by
  refine mirrors_ask_bind h (h.available hun).symm fun q hq => ?_
  exact mirrors_addNode h ⟨hd, hn, availableFrom_ok _ _ hq, hb⟩ hpr hun

private theorem mirrors_ensureDir (hpr : s.Attached parent) (hun : s.Unused pushed (k + 1)) :
    both (ensureDir parent name)
      (Mirrors fun id s' => s'.Attached id ∧ s'.Unused pushed k) s t := by
  refine mirrors_ask_bind h (h.childIn_eq hpr) fun child hch => ?_
  obtain ⟨hd, hl⟩ := childIn_ok hch
  cases child with
  | some existing =>
    have he : s.Attached existing := hpr.child hl
    refine mirrors_ask_bind h (h.node_eq he) fun found _ => ?_
    split
    · exact mirrors_pure h ⟨he, hun.mono (Nat.le_succ k)⟩
    · exact mirrors_throw h _
  | none => exact mirrors_addPlaced h hpr hd hl rfl hun

end

private theorem mirrors_ensureDirs (segments : List Bytes) : ∀ (s t : State) (current : Nat),
    s.Mirror t → s.Attached current → s.Unused pushed (segments.length + k) →
      both (ensureDirs current segments)
        (Mirrors fun id s' => s'.Attached id ∧ s'.Unused pushed k) s t := by
  induction segments with
  | nil =>
    intro s t current h hc hun
    exact mirrors_pure h ⟨hc, hun.mono (Nat.le_add_left k 0)⟩
  | cons segment segments ih =>
    intro s t current h hc hun
    have hun : s.Unused pushed (segments.length + k + 1) :=
      hun.mono (by rw [List.length_cons]; omega)
    refine mirrors_bind (mirrors_ensureDir h hc hun) fun next s' t' h' hnx => ?_
    exact ih s' t' next h' hnx.1 hnx.2

/-- A change of a node that is there. -/
theorem mirrors_settle (h : s.Mirror t) (hn : s.nodes[id]? = some node) {f : Node → Node}
    (hf : Settles f node) : both (.update fun self => self.updateNode id f)
      (Mirrors fun _ s' => s'.nodes[id]? = some (f node)) s t := by
  refine mirrors_update (h.updateNode fun found hfn => ?_) ?_
  · cases hn.symm.trans hfn
    exact hf
  · rw [nodes_updateNode, if_pos rfl, hn]
    rfl

private theorem mirrors_placeOver (h : s.Mirror t) (hid : s.Attached id) (body : Body) :
    both (placeOver id body) (Mirrors fun _ _ => True) s t := by
  refine mirrors_ask_bind h (congrArg Except.ok h.capacity.symm) fun capacity _ => ?_
  refine mirrors_ask_bind h (h.node_eq hid) fun node hn => ?_
  have hn := node_ok hn
  split
  · next bytes' bytes hb =>
    refine mirrors_bind (mirrors_settle h hn
      (settles_of_not_dir rfl rfl rfl (by rw [hb]; rfl) rfl)) fun _ s' t' h' _ => ?_
    exact mirrors_pure h' trivial
  · next existing incoming hb =>
    refine mirrors_bind (mirrors_settle h hn
      (settles_of_not_dir rfl rfl rfl (by rw [hb]; rfl) rfl)) fun _ s' t' h' _ => ?_
    exact mirrors_pure h' trivial
  · exact mirrors_throw h _

variable {path : Bytes}

private theorem splitPath_ok {segments : List Bytes} (h : splitPath path = .ok segments) :
    pathSegments path = segments := by
  unfold splitPath at h
  unfold pathSegments
  split at h
  · cases h
  · next he =>
    cases h
    rw [if_neg he]

private theorem splitLast_ok {segments dirs : List Bytes} {last : Bytes}
    (h : splitLast segments = .ok (dirs, last)) : segments.length = dirs.length + 1 := by
  unfold splitLast at h
  split at h
  · next hls =>
    cases h
    have hne : segments ≠ [] := fun hn => by
      rw [hn] at hls
      cases hls
    have hp := List.length_pos_iff.mpr hne
    rw [List.length_dropLast]
    omega
  · cases h

section

variable (h : s.Mirror t)
include h

private theorem mirrors_place {body : Body} (hb : body.children = ∅)
    (hun : s.Unused pushed (pathSegments path).length) :
    both (place path body) (Mirrors fun _ _ => True) s t := by
  refine mirrors_ask_bind h rfl fun segments hs => ?_
  refine mirrors_ask_bind h rfl fun ⟨dirs, last⟩ hls => ?_
  rw [splitPath_ok hs, splitLast_ok hls] at hun
  refine mirrors_bind (mirrors_ensureDirs dirs s t ROOT_ID h (Links.Within.refl _ _) hun)
    fun parent s' t' h' ⟨hpr, hun'⟩ => ?_
  refine mirrors_ask_bind h' (h'.childIn_eq hpr) fun child hch => ?_
  obtain ⟨hd, hl⟩ := childIn_ok hch
  cases child with
  | some id => exact mirrors_placeOver h' (hpr.child hl) body
  | none =>
    exact (mirrors_addPlaced h' hpr hd hl hb hun').mono fun _ _ _ h =>
      ⟨h.1, fun _ _ => trivial⟩

/-- The holder of a qid path that is pushed. -/
theorem Mirror.holder_eq (hun : s.Unused (some q) k) : s.qidIndex[q]? = t.qidIndex[q]? := by
  cases hfn : s.qidIndex[q]? with
  | none => exact (h.unindexed hfn).symm
  | some i =>
    obtain ⟨node, hn, hq⟩ := (h.firm.sound.indexed q i).mp hfn
    have hi : s.Attached i := by
      by_contra hnt
      exact (hun i node hn hnt).1 (congrArg some hq.symm)
    exact (h.indexed.mpr ⟨hfn, hi⟩).symm

private theorem mirrors_replaceQidPath (hid : s.Attached id)
    (hn : s.nodes[id]? = some node) (hun : s.Unused (some q) k) :
    both (replaceQidPath id q)
      (Mirrors fun _ s' => ∃ node', s'.nodes[id]? = some node' ∧ node'.body = node.body) s t := by
  have hh := h.holder_eq hun
  refine mirrors_ask_bind h (by rw [hh]) fun _ hf => ?_
  have hf : ∀ owner, s.qidIndex[q]? = some owner → owner = id := by
    intro owner ho
    rw [ho] at hf
    dsimp only at hf
    split at hf
    · cases hf
    · next heq => exact not_not.mp heq
  refine mirrors_ask_bind h (h.node_eq hid) fun found hfn => ?_
  cases hn.symm.trans (node_ok hfn)
  split
  · refine mirrors_update (h.replaced hid hn hf) ⟨{ node with qidPath := q }, ?_, rfl⟩
    rw [nodes_updateNode, if_pos rfl]
    rw [hn]
    rfl
  · exact mirrors_pure h ⟨node, hn, rfl⟩

private theorem mirrors_applyPushedMetadata (hid : s.Attached id) (hn : s.nodes[id]? = some node)
    (metadata : PushedEntryMetadata) (hun : s.Unused (some metadata.qidPath) k) :
    both (applyPushedMetadata id metadata)
      (Mirrors fun _ s' => ∃ node', s'.nodes[id]? = some node' ∧ node'.body = node.body) s t := by
  refine mirrors_bind (mirrors_replaceQidPath h hid hn hun) fun _ s' t' h' ⟨node', hn', hb⟩ => ?_
  refine (mirrors_settle h' hn' ⟨⟨⟨rfl, rfl, rfl⟩, rfl⟩, rfl⟩).mono fun r s'' t'' h =>
    ⟨h.1, fun u hu => ?_⟩
  exact ⟨_, h.2 u hu, hb⟩

/-- Nothing of the tree is put back. -/
theorem Mirror.mayReattach_eq (hid : s.Attached id) (path : Bytes) (bodyMatches : Body → Bool) :
    s.mayReattach id path bodyMatches = .error (.fromStatic "qid path already in use") ∧
      t.mayReattach id path bodyMatches = .error (.fromStatic "qid path already in use") := by
  have hr : ∀ u : State, u.Sound → u.Attached id →
      u.mayReattach id path bodyMatches = .error (.fromStatic "qid path already in use") := by
    intro u hu ha
    have hnt : u.nodeIsDetached id = false := by
      rw [Bool.eq_false_iff]
      intro hdt
      obtain ⟨d, hd, hw⟩ := hu.within_of_detachedFrom _ id hdt
      exact hu.not_attached_of_within hd hw ha
    unfold mayReattach
    rw [hnt]
    rfl
  exact ⟨hr s h.firm.sound hid, hr t h.alone.sound (h.attached.mpr hid)⟩

variable {bodyMatches : Body → Bool} {settle : Body → Body}

private theorem mirrors_reattach (hun : s.Unused (some q) k) :
    both (reattachDetachedPushedNode path parent name q bodyMatches)
      (Mirrors fun found s' => found = none ∧ s'.qidIndex[q]? = none ∧ s' = s) s t := by
  have hh := h.holder_eq hun
  refine mirrors_ask_bind h (congrArg Except.ok hh) fun found hfn => ?_
  have hfn : s.qidIndex[q]? = found := Except.ok.inj hfn
  cases found with
  | none => exact mirrors_pure h ⟨rfl, hfn, rfl⟩
  | some id =>
    have hid : s.Attached id := by
      rw [hh] at hfn
      exact (h.indexed.mp hfn).2
    obtain ⟨hr, hr'⟩ := h.mayReattach_eq hid path bodyMatches
    refine mirrors_ask_bind h (hr.trans hr'.symm) fun _ hm => ?_
    rw [hr] at hm
    cases hm

/-- The metadata and the body of a push, on a node that is there. -/
theorem mirrors_settlePushed (hst : SettlesBody bodyMatches settle)
    (hid : s.Attached id) (hn : s.nodes[id]? = some node) (hm : bodyMatches node.body = true)
    (metadata : PushedEntryMetadata) (hun : s.Unused (some metadata.qidPath) k) :
    both (do
      applyPushedMetadata id metadata
      .update fun self => self.updateNode id fun node => { node with body := settle node.body }
      pure id) (Mirrors fun _ _ => True) s t := by
  refine mirrors_bind (mirrors_applyPushedMetadata h hid hn metadata hun)
    fun _ s' t' h' ⟨node', hn', hb⟩ => ?_
  have hk := hst node.body node'.body hm (by rw [hb])
  refine mirrors_bind (mirrors_settle h' hn' ⟨⟨⟨rfl, rfl, hk.1⟩, rfl⟩, hk.2⟩)
    fun _ s'' t'' h'' _ => mirrors_pure h'' trivial

private theorem mirrors_placePushed {metadata : PushedEntryMetadata} {fresh : Body}
    (hst : SettlesBody bodyMatches settle) (hfr : fresh.children = ∅)
    (hun : s.Unused (some metadata.qidPath) (pathSegments path).length) :
    both (placePushed path metadata bodyMatches settle fresh) (Mirrors fun _ _ => True) s t := by
  refine mirrors_ask_bind h rfl fun segments hs => ?_
  refine mirrors_ask_bind h rfl fun ⟨dirs, last⟩ hls => ?_
  rw [splitPath_ok hs, splitLast_ok hls] at hun
  refine mirrors_bind (mirrors_ensureDirs dirs s t ROOT_ID h (.refl _ _) hun)
    fun parent s' t' h' ⟨hpr, hun'⟩ => ?_
  refine mirrors_ask_bind h' (h'.childIn_eq hpr) fun child hch => ?_
  obtain ⟨hd, hl⟩ := childIn_ok hch
  cases child with
  | some id =>
    have hid : s'.Attached id := hpr.child hl
    refine mirrors_ask_bind h' (h'.node_eq hid) fun node hn => ?_
    refine mirrors_refuseIf_bind h' fun hr => ?_
    exact mirrors_settlePushed h' hst hid (node_ok hn) (by simpa using hr) metadata hun'
  | none =>
    refine mirrors_bind (mirrors_reattach h' hun') fun found s'' t'' h'' hnn => ?_
    obtain ⟨rfl, hf, rfl⟩ := hnn
    have hi : s''.Insertable (.pushed last parent metadata fresh) :=
      ⟨hd, hl, hf, hfr⟩
    exact (mirrors_addNode h'' hi hpr hun').mono fun _ _ _ h =>
      ⟨h.1, fun _ _ => trivial⟩

private theorem Mirror.descend_eq (segments : List Bytes) : ∀ current,
    s.Attached current → s.descend current segments = t.descend current segments := by
  induction segments with
  | nil =>
    intro current _
    rfl
  | cons segment segments ih =>
    intro current hc
    unfold descend
    rw [h.childIn_eq hc]
    cases hch : t.childIn current segment with
    | error e => rfl
    | ok child =>
      cases child with
      | none => rfl
      | some next =>
        rw [← h.childIn_eq hc] at hch
        exact ih next (hc.child (childIn_ok hch).2)

private theorem Mirror.lookupOptionalPath_eq (path : Bytes) :
    s.lookupOptionalPath path = t.lookupOptionalPath path := by
  unfold lookupOptionalPath
  split
  · rfl
  · exact h.descend_eq _ ROOT_ID (.refl _ _)

private theorem Mirror.lookupPath_eq (path : Bytes) : s.lookupPath path = t.lookupPath path := by
  unfold lookupPath
  rw [h.lookupOptionalPath_eq path]

private theorem mirrors_removeSubtreeIfExists (path : Bytes) :
    both (removeSubtreeIfExists path) (Mirrors fun _ _ => True) s t := by
  refine mirrors_ask_bind h (h.lookupOptionalPath_eq path) fun found hfn => ?_
  cases found with
  | none => exact mirrors_pure h trivial
  | some id =>
    have hid := attached_of_lookupOptionalPath hfn
    refine mirrors_refuseIf_bind h fun hrt => ?_
    refine mirrors_ask_bind h (h.node_eq hid) fun node hn => ?_
    obtain ⟨hl, hpr⟩ := h.firm.sound.linked_of_attached (node_ok hn) hid (of_decide_eq_false hrt)
    exact mirrors_update (h.detach hl hpr) trivial

/-- The way up from a node of the tree, with enough fuel for its length. -/
theorem Mirror.climb_eq (root : Nat) (names : List Bytes) :
    ∀ current fuel fuel', s.links.follow ROOT_ID names = some current → names.length < fuel →
      names.length < fuel' → s.climb root fuel current = t.climb root fuel' current := by
  induction names using List.reverseRecOn with
  | nil =>
    intro current fuel fuel' hpt hlt hlt'
    cases hpt
    obtain ⟨node, hn, hpr, _⟩ := h.firm.sound.root
    obtain ⟨fuel, rfl⟩ := Nat.exists_eq_succ_of_ne_zero (Nat.ne_of_gt hlt)
    obtain ⟨fuel', rfl⟩ := Nat.exists_eq_succ_of_ne_zero (Nat.ne_of_gt hlt')
    have hfn : s.node ROOT_ID = .ok node := by
      unfold State.node
      rw [hn]
      rfl
    unfold climb
    rw [← h.node_eq (Links.Within.refl _ _), hfn]
    dsimp only [bind, Except.bind]
    rw [if_pos hpr, if_pos hpr]
  | append_singleton names n ih =>
    intro current fuel fuel' hpt hlt hlt'
    rw [List.length_append, List.length_singleton] at hlt hlt'
    obtain ⟨p, hp, hl⟩ := Links.follow_concat.mp hpt
    obtain ⟨_, node, hn, rfl, _⟩ := h.firm.sound.listed p n current hl
    obtain ⟨fuel, rfl⟩ := Nat.exists_eq_succ_of_ne_zero (Nat.ne_of_gt (Nat.zero_lt_of_lt hlt))
    obtain ⟨fuel', rfl⟩ := Nat.exists_eq_succ_of_ne_zero (Nat.ne_of_gt (Nat.zero_lt_of_lt hlt'))
    have hfn : s.node current = .ok node := by
      unfold State.node
      rw [hn]
      rfl
    unfold climb
    rw [← h.node_eq ⟨_, hpt⟩, hfn]
    dsimp only [bind, Except.bind]
    rw [ih node.parent fuel fuel' hp (by omega) (by omega)]

private theorem Mirror.retainedBy_eq (root : Nat) (rootSegments : List Bytes)
    (path : Bytes) : s.retainedBy root rootSegments path = t.retainedBy root rootSegments path := by
  unfold retainedBy
  rw [← h.lookupPath_eq]
  refine except_bind_congr fun segments _ => ?_
  split
  · exact except_bind_congr fun _ he => nomatch he
  · refine except_bind_congr fun current hc => ?_
    have hpt := follow_of_lookupPath hc
    have hrt := h.firm.sound.exists_of_isTop (.inl rfl)
    have hrt' := h.alone.sound.exists_of_isTop (.inl rfl)
    exact h.climb_eq root _ current _ _ hpt
      (Nat.lt_succ_of_lt (h.firm.sound.length_lt hrt hpt))
      (Nat.lt_succ_of_lt (h.alone.sound.length_lt hrt' ((h.follow _).trans hpt)))

/-- The search for stale subtrees from a node of the tree, with enough fuel for what is below. -/
theorem Mirror.staleBelow_eq (retained : List Nat) (fuel : Nat) :
    ∀ names parent fuel', s.links.follow ROOT_ID names = some parent →
      s.nodes.size ≤ fuel + names.length → t.nodes.size ≤ fuel' + names.length →
        s.staleBelow retained fuel parent = t.staleBelow retained fuel' parent := by
  have hrt := h.firm.sound.exists_of_isTop (.inl rfl)
  have hrt' := h.alone.sound.exists_of_isTop (.inl rfl)
  induction fuel with
  | zero =>
    intro names parent fuel' hpt hsz _
    have hlt := h.firm.sound.length_lt hrt hpt
    omega
  | succ fuel ih =>
    intro names parent fuel' hpt hsz hsz'
    have hlt' := h.alone.sound.length_lt hrt' ((h.follow _).trans hpt)
    obtain ⟨fuel', rfl⟩ := Nat.exists_eq_succ_of_ne_zero (show fuel' ≠ 0 by omega)
    unfold staleBelow
    rw [← h.node_eq ⟨_, hpt⟩]
    cases hn : s.node parent with
    | error e => rfl
    | ok node =>
      dsimp only [bind, Except.bind]
      cases hb : node.body with
      | dir directory =>
        dsimp only
        congr 1
        refine mapM_congr fun entry he => ?_
        obtain ⟨name, child⟩ := entry
        have hl : s.links parent name = some child := by
          rw [links_of_node (node_ok hn), hb]
          exact ExtTreeMap.mem_toList_iff_getElem?_eq_some.mp he
        have hch : s.links.follow ROOT_ID (names ++ [name]) = some child :=
          Links.follow_concat.mpr ⟨parent, hpt, hl⟩
        rw [h.node_eq ⟨_, hch⟩, ih (names ++ [name]) child fuel' hch]
        all_goals
          rw [List.length_append, List.length_singleton]
          omega
      | _ => rfl

private theorem Mirror.staleSubtrees_eq (rootPath : Bytes) (paths : List Bytes) :
    s.staleSubtrees rootPath paths = t.staleSubtrees rootPath paths := by
  have hr : s.retainedBy = t.retainedBy := by
    funext root rootSegments path
    exact h.retainedBy_eq root rootSegments path
  unfold staleSubtrees collectStaleSubtrees
  rw [← h.lookupPath_eq, ← hr]
  refine except_bind_congr fun rootSegments _ => except_bind_congr fun root hrt => ?_
  have hpt := follow_of_lookupPath hrt
  rw [← h.node_eq ⟨_, hpt⟩]
  refine except_bind_congr fun node _ => ?_
  split
  · exact except_bind_congr fun _ he => nomatch he
  · exact except_bind_congr fun retained _ => h.staleBelow_eq _ _ _ root _ hpt (by omega) (by
      omega)

end

private theorem Mirror.detachAll (stale : List (Nat × Bytes × Nat)) : ∀ s t : State, s.Mirror t →
    s.Apart stale →
      (stale.foldl (fun self (parent, name, id) => self.detach parent name id) s).Mirror
        (stale.foldl (fun self (parent, name, id) => self.detach parent name id) t) := by
  induction stale with
  | nil =>
    intro s t h _
    exact h
  | cons e stale ih =>
    intro s t h ha
    exact ih _ _ (h.detach (ha.link e List.mem_cons_self)
      (ha.attached e List.mem_cons_self)) (ha.detach h.firm.sound)

private theorem Mirror.reregister (h : s.Mirror t) (roots roots' : ExtTreeMap Bytes PrincipalRoot) :
    Mirror { s with principalRoots := roots } { t with principalRoots := roots' } :=
  ⟨h.firm.reregister roots s.principalRootsRequired,
    h.alone.reregister roots' t.principalRootsRequired,
    h.unreferenced, h.next, h.capacity, h.nodes⟩

theorem mirrors_retainSubtreePaths (h : s.Mirror t) (rootPath : Bytes) (paths : List Bytes) :
    both (retainSubtreePaths rootPath paths) (Mirrors fun _ _ => True) s t := by
  refine mirrors_ask_bind h (h.staleSubtrees_eq rootPath paths) fun stale hs => ?_
  have ha := h.firm.sound.apart_staleSubtrees hs
  refine mirrors_bind (mirrors_update (P := fun _ _ => True) (.detachAll stale s t h ha)
    trivial) fun _ s' t' h' _ => ?_
  refine mirrors_bind (mirrors_update (P := fun _ _ => True) ?_ trivial) fun _ s'' t'' h'' _ =>
    mirrors_pure h'' trivial
  split
  · exact h'
  · exact h'.reregister _ _

/-! ### Clients -/

private theorem Mirror.still (h : s.Mirror t) (hf : s'.Firm) (hs : s.Still s') : s'.Mirror t := by
  refine ⟨hf, h.alone, h.unreferenced, h.next.trans hs.next.symm,
    h.capacity.trans hs.capacity.symm, fun i hi => ?_⟩
  obtain ⟨ho, hn⟩ := hs.nodes i hi
  exact (h.nodes i ho).trans hn.symm

private theorem still_retained (s : State) (id : Nat) : s.Still (s.retained id) :=
  ⟨rfl, rfl, fun _ hi => ⟨hi, rfl⟩⟩

end State

namespace Locked

variable {l : Locked}

private theorem still_bindFid (hl : l.Sane) (fid : Fid) (binding : FidBinding) :
    wp (bindFid fid binding) (fun _ l' => l.state.Still l'.state) l := by
  unfold bindFid
  rw [wp_bind, onState, wp_zoom]
  refine wp_ask_bind (fun _ _ => .refl l.state) fun node hn => ?_
  rw [wp_update]
  have hs := l.state.still_retained binding.node
  refine wp_ask_bind (fun _ h => by cases h) fun previous hp => ?_
  rw [wp_bind, wp_update]
  cases previous with
  | none => exact hs
  | some previous =>
    have hr : 0 < (l.state.retained binding.node).references previous.node := by
      have hc := hl.referred (Except.ok.inj hp)
      rw [references_retained]
      omega
    exact (wp_releaseFidNode (hl.firm.retained (node_ok hn)) hl.positive.retained
      hr).mono fun _ _ h => hs.trans h.still

private theorem still_unbindFid (hl : l.Sane) (fid : Fid) :
    wp (unbindFid fid) (fun _ l' => l.state.Still l'.state) l := by
  refine wp_ask_bind (fun _ h => nomatch h) fun found hfn => ?_
  cases found with
  | none => exact .refl l.state
  | some binding =>
    exact (wp_releaseFidNode hl.firm hl.positive (hl.referred (Except.ok.inj hfn))).mono
      fun _ _ h => h.still

private theorem still_attach (hl : l.Sane) (id : Nat) (fid : Fid) (uname aname : Bytes) :
    wp (attach id fid uname aname) (fun _ l' => l.state.Still l'.state) l := by
  refine wp_ask_bind (fun _ _ => .refl l.state) fun root _ => ?_
  refine wp_ask_bind (fun _ _ => .refl l.state) fun principalId _ => ?_
  refine wp_ask_bind (fun _ _ => .refl l.state) fun qid _ => ?_
  rw [wp_bind]
  refine (still_bindFid hl fid _).mono fun r l' h => ?_
  cases r with
  | error e | ok u => exact h

private theorem frames_openFid_state (fid : Fid) (qid : Qid) (mode : UInt8) :
    Checked.Frames Locked.state (openFid fid qid mode) :=
  (frames_ask _).bind fun _ => (frames_ask _).bind fun _ =>
    (frames_refuseIf _ _).bind fun _ => (frames_ask _).bind fun _ =>
      frames_refuseIf _ _

theorem still_dropped (hl : l.Sane) : wp dropped (fun _ l' => l.state.Still l'.state) l := by
  refine (released_releaseAll l.fids.toList l.state hl.firm hl.positive fun n => ?_).still
  rw [show (l.fids.toList.map fun entry => entry.2.isTo n).sum = boundIn l.fids n from
    sumEntries_eq_sum.symm]
  exact hl.covered n

end Locked

private theorem Walk.await_pending (walk : Walk) (name : Bytes) (s : State) :
    wp (walk.await name .pending) (fun _ s' => s' = s) s := by
  refine wp_ask_bind (fun _ h => nomatch h) fun detached _ => ?_
  refine wp_ask_bind (fun _ h => nomatch h) fun body _ => ?_
  split
  · rfl
  · split
    · split <;> first | rfl | next h => cases h
    · rfl

/-! ### Owners -/

namespace OwnerOp

/-- The operations that publish nodes without relays and take them back, where the nodes outside
the tree have other qid paths than those that the operation pushes or gives out. -/
def Undisturbed : OwnerOp → State → Prop
  | .set path _ => (·.Unused none (pathSegments path).length)
  | .setPushedFile path _ metadata =>
    (·.Unused (some metadata.qidPath) (pathSegments path).length)
  | .setPushedDirectory path metadata =>
    (·.Unused (some metadata.qidPath) (pathSegments path).length)
  | .removeSubtreeIfExists _ | .retainSubtreePaths _ _ => fun _ => True
  | _ => fun _ => False

/-- Without its result, an operation does the same on both. -/
theorem mirrors_discard {α : Type} {x : Checked State Error α} {s t : State}
    (h : both x (Mirrors fun _ _ => True) s t) :
    both (do let _ ← x) (Mirrors fun _ _ => True) s t :=
  mirrors_bind h fun _ _ _ h' _ => mirrors_pure h' trivial

private theorem mirrors (op : OwnerOp) {s t : State} (h : s.Mirror t) (hop : op.Undisturbed s) :
    both op.run (Mirrors fun _ _ => True) s t := by
  cases op with
  | set path bytes => exact mirrors_discard (mirrors_place h rfl hop)
  | setPushedFile path bytes metadata =>
    exact mirrors_discard (mirrors_placePushed h settlesBody_file rfl hop)
  | setPushedDirectory path metadata =>
    refine mirrors_discard (mirrors_refuseIf_bind h fun _ => mirrors_placePushed h ?_ rfl hop)
    exact fun _ _ _ _ => ⟨rfl, rfl⟩
  | removeSubtreeIfExists path => exact mirrors_removeSubtreeIfExists h path
  | retainSubtreePaths rootPath paths =>
    exact mirrors_discard (mirrors_retainSubtreePaths h rootPath paths)
  | _ => exact hop.elim

end OwnerOp

/-! ### Owners among clients -/

namespace World

variable {w w' : World} {action : Action}

/-- The owner publishes and takes back what has no relays, undisturbed; clients attach, walk, open
and clunk, and no relay replies to them. -/
def Quiet (w : World) : Action → Prop
  | .owner op => op.Undisturbed w.state
  | .tree | .drop _ | .attach _ _ _ _ | .walk _ _ _ _ | .openFid _ _ _ _ | .clunk _ _ => True
  | .advance _ reply => reply = .pending
  | _ => False

private theorem still_advanced {id : Nat} {session : Session} (hw : w.Ordered)
    (hs : w.sessions[id]? = some session)
    (h : w.advanced id session .pending = some w') : w.state.Still w'.state := by
  unfold World.advanced at h
  split at h
  · split at h
    · cases h
      exact Locked.still_bindFid (hw.sane hs) _ _
    · cases h
      exact .refl w.state
  · cases h
    exact .refl w.state
  · next walk name _ =>
    cases h
    have hsm : wp (Locked.onState (walk.await name .pending))
        (fun _ l' => l'.state = w.state) ⟨w.state, session.fids⟩ := by
      exact walk.await_pending name w.state
    show w.state.Still ((Locked.onState (walk.await name .pending)).exec _).2.state
    rw [show ((Locked.onState (walk.await name .pending)).exec _).2.state = w.state from hsm]
    exact .refl w.state
  · cases h
    exact .refl w.state
  · cases h

/-- What clients do leaves the tree of the owner as it is. -/
theorem still_next (hw : w.Ordered) (hq : w.Quiet action) (ht : ∀ op, action ≠ .owner op)
    (h : w.next action = some w') : w.state.Still w'.state := by
  cases action with
  | owner op => exact absurd rfl (ht op)
  | tree =>
    cases h
    exact .refl w.state
  | drop id =>
    obtain ⟨session, hs, hf⟩ := begun_eq_some h
    cases hf
    exact Locked.still_dropped (hw.sane hs)
  | attach id fid uname aname =>
    obtain ⟨session, hs, hf⟩ := begun_eq_some h
    cases hf
    exact Locked.still_attach (hw.sane hs) id fid uname aname
  | walk id fid newfid names =>
    obtain ⟨session, hs, hf⟩ := begun_eq_some h
    split at hf
    all_goals
      cases hf
      exact .refl w.state
  | openFid id fid qid mode =>
    obtain ⟨session, hs, hf⟩ := begun_eq_some h
    cases hf
    show w.state.Still ((Locked.openFid fid qid mode).exec ⟨w.state, session.fids⟩).2.state
    rw [Locked.frames_openFid_state fid qid mode]
    exact .refl w.state
  | clunk id fid =>
    obtain ⟨session, hs, hf⟩ := begun_eq_some h
    cases hf
    exact Locked.still_unbindFid (hw.sane hs) fid
  | advance id reply =>
    obtain ⟨session, hs, hf⟩ := Option.bind_eq_some_iff.mp h
    cases hq
    exact still_advanced hw hs hf
  | _ => exact hq.elim

/-- The result of an operation of the owner. -/
def reported (w : World) : Action → List (Result Unit)
  | .owner op => [(op.run.exec w.state).1]
  | _ => []

/-- An action, with the results of the operations of the owner, the latest first. -/
def watch (w : World × List (Result Unit)) (action : Action) :
    Option (World × List (Result Unit)) :=
  (w.1.next action).map fun w' => (w', w.1.reported action ++ w.2)

end World

/-- The runs of a front, with the results of the operations of its owner. -/
def watching : System (World × List (Result Unit)) Action where
  initial w := w = (.new, [])
  step w action w' := World.watch w action = some w'

/-- The operations of the owner, the latest first. -/
def ownerOps (history : List Action) : List OwnerOp :=
  history.filterMap fun
    | .owner op => some op
    | _ => none

/-- What operations leave and return without any client. -/
def alone : List OwnerOp → State × List (Result Unit)
  | [] => (.new, [])
  | op :: earlier =>
    let outcome := op.run.exec (alone earlier).1
    (outcome.2, outcome.1 :: (alone earlier).2)

/-- The node that a path from the root leads to. -/
def State.nodeAt (s : State) (names : List Bytes) : Option Node :=
  (s.links.follow ROOT_ID names).bind (s.nodes[·]?)

private theorem State.Mirror.nodeAt_eq {s t : State} (h : s.Mirror t) (names : List Bytes) :
    s.nodeAt names = t.nodeAt names := by
  unfold State.nodeAt
  rw [h.follow]
  cases hfn : s.links.follow ROOT_ID names with
  | none => rfl
  | some i => exact (h.nodes i ⟨names, hfn⟩).symm

private theorem State.mirror_new : State.new.Mirror .new :=
  ⟨World.ordered_new.firm, World.ordered_new.firm, rfl, rfl, rfl, fun _ _ => rfl⟩

variable {w : World × List (Result Unit)} {history : List Action}

/-- An undisturbed owner has the results, and the tree, that it has alone. -/
theorem World.mirrors_alone
    (run : (watching.restrict (·.1.Quiet ·)).Run history w) :
    w.1.Ordered ∧ w.1.state.Mirror (alone (ownerOps history)).1 ∧
      w.2 = (alone (ownerOps history)).2 := by
  refine run.invariant (I := fun history w => w.1.Ordered ∧
    w.1.state.Mirror (alone (ownerOps history)).1 ∧ w.2 = (alone (ownerOps history)).2) ?_ ?_
  · rintro w rfl
    exact ⟨World.ordered_new, State.mirror_new, rfl⟩
  · rintro history w action w' _ ⟨hw, hm, hr⟩ ⟨hq, hs⟩
    obtain ⟨w₁, hnx, rfl⟩ := Option.map_eq_some_iff.mp hs
    refine ⟨hw.next hnx, ?_⟩
    by_cases ht : ∀ op, action ≠ .owner op
    · have hops : ownerOps (action :: history) = ownerOps history := by
        cases action with
        | owner op => exact absurd rfl (ht op)
        | _ => rfl
      have hn : w.1.reported action = [] := by
        cases action with
        | owner op => exact absurd rfl (ht op)
        | _ => rfl
      rw [hops, hn]
      exact ⟨hm.still (hw.next hnx).firm (World.still_next hw hq ht hnx),
        hr⟩
    · obtain ⟨op, hop⟩ := not_forall.mp ht
      cases not_not.mp hop
      have hb := op.mirrors hm hq
      rw [← Option.some.inj hnx, hr]
      exact ⟨hb.2.1, congrArg (· :: (alone (ownerOps history)).2) hb.1⟩

/-- With the same operations of an undisturbed owner, whatever clients do in between, the owner
has the same results and publishes the same nodes: those that it has without any client. -/
theorem owner_undisturbed {history history' : List Action} {w w' : World × List (Result Unit)}
    (run : (watching.restrict (·.1.Quiet ·)).Run history w)
    (run' : (watching.restrict (·.1.Quiet ·)).Run history' w')
    (same : ownerOps history = ownerOps history') :
    w.2 = w'.2 ∧ (∀ names, w.1.state.nodeAt names = w'.1.state.nodeAt names) ∧
      w.2 = (alone (ownerOps history)).2 ∧
        ∀ names, w.1.state.nodeAt names = (alone (ownerOps history)).1.nodeAt names := by
  obtain ⟨_, hm, hr⟩ := World.mirrors_alone run
  obtain ⟨_, hm', hr'⟩ := World.mirrors_alone run'
  rw [← same] at hm' hr'
  exact ⟨hr.trans hr'.symm,
    fun names => (hm.nodeAt_eq names).trans (hm'.nodeAt_eq names).symm,
    hr, hm.nodeAt_eq⟩

/-- Where all nodes are in the tree, all qid paths of others are unused. -/
theorem State.unused_of_attached {s : State} {pushed : Option UInt64} {count : Nat}
    (h : ∀ i ∈ s.nodes, s.Attached i) : s.Unused pushed count :=
  fun i _ hn hdt =>
    absurd (h i (ExtTreeMap.mem_iff_isSome_getElem?.mpr (hn ▸ rfl))) hdt

/-- The owner publishes a file. -/
def publication : Action := .owner (.set (utf8 "a/b") (utf8 "x"))

/-- A client attaches. -/
def clientAttached : List Action := [.tree, .attach 1 1 (utf8 "u") []]

/-- The owner publishes while nothing is outside the tree. -/
theorem run_publication
    (run : (watching.restrict (·.1.Quiet ·)).Run history w)
    (hrt : w.1.state.nodes.keys = [ROOT_ID]) :
    ∃ w', (watching.restrict (·.1.Quiet ·)).Run (publication :: history) w' := by
  refine ⟨_, run.next ⟨State.unused_of_attached fun i hi => ?_, rfl⟩⟩
  have hm := ExtTreeMap.mem_keys.mpr hi
  rw [hrt] at hm
  cases List.mem_singleton.mp hm
  exact .refl _ ROOT_ID

theorem owner_undisturbed_publication : ∃ w w',
    (watching.restrict (·.1.Quiet ·)).Run [publication] w ∧
      (watching.restrict (·.1.Quiet ·)).Run (publication :: clientAttached.reverse) w' ∧
        w.2 = w'.2 ∧ w.2.map Except.isOk = [true] ∧
          w.1.state.nodeAt [utf8 "a", utf8 "b"] = w'.1.state.nodeAt [utf8 "a", utf8 "b"] ∧
            (w.1.state.nodeAt [utf8 "a", utf8 "b"]).isSome = true := by
  have hv : (clientAttached.foldlM World.watch (.new, [])).map
      (fun w => w.1.state.nodes.keys) = some [ROOT_ID] := by decide +kernel
  obtain ⟨w₁, hw₁, hrt⟩ := Option.map_eq_some_iff.mp hv
  have hrn : (watching.restrict (·.1.Quiet ·)).Run clientAttached.reverse w₁ := by
    refine .of_foldlM rfl (fun w action ha w' h => ⟨?_, h⟩) hw₁
    simp only [clientAttached, List.mem_cons, List.not_mem_nil, or_false] at ha
    rcases ha with rfl | rfl <;> exact trivial
  obtain ⟨w, hw⟩ := run_publication (.start rfl) (by decide +kernel)
  obtain ⟨w', hw'⟩ := run_publication hrn hrt
  obtain ⟨hr, hnd, hal, hn⟩ := owner_undisturbed hw hw' rfl
  refine ⟨w, w', hw, hw', hr, ?_, hnd _, ?_⟩
  · rw [hal]
    decide +kernel
  · rw [hn]
    decide +kernel

/-- A file is pushed, taken out, and pushed again under another name. -/
def renamed (between : List Action) : List Action :=
  .owner (.setPushedFile (utf8 "a") (utf8 "x") ⟨7, 0, 0, 0, 1, [], [], []⟩) :: between ++
    [.owner (.removeSubtreeIfExists (utf8 "a")),
      .owner (.setPushedFile (utf8 "b") (utf8 "x") ⟨7, 0, 0, 0, 1, [], [], []⟩)]

/-- A client walks to the file. -/
def walkToFile : List Action :=
  [.tree, .attach 1 1 (utf8 "u") [], .walk 1 1 2 [utf8 "a"]] ++
    List.replicate 3 (.advance 1 .pending)

/-- A client that holds the file keeps its qid path taken: the owner cannot push it again under
another name. -/
theorem owner_disturbed : ∃ w w', watching.Run (renamed []).reverse w ∧
    watching.Run (renamed walkToFile).reverse w' ∧
      ownerOps (renamed []).reverse = ownerOps (renamed walkToFile).reverse ∧
        w.2.map Except.isOk = [true, true, true] ∧ w'.2.map Except.isOk = [false, true, true] ∧
          (w.1.state.nodeAt [utf8 "b"]).isSome = true ∧ w'.1.state.nodeAt [utf8 "b"] = none := by
  have hv : ((renamed []).foldlM World.watch (.new, [])).map (fun w =>
      (w.2.map Except.isOk, (w.1.state.nodeAt [utf8 "b"]).isSome)) =
        some ([true, true, true], true) := by decide +kernel
  have hv' : ((renamed walkToFile).foldlM World.watch (.new, [])).map (fun w =>
      (w.2.map Except.isOk, (w.1.state.nodeAt [utf8 "b"]).isNone)) =
        some ([false, true, true], true) := by decide +kernel
  obtain ⟨w, hrn, hv⟩ := System.Run.of_view (M := watching) rfl (fun _ _ _ _ h => h) hv
  obtain ⟨w', hrn', hv'⟩ := System.Run.of_view (M := watching) rfl (fun _ _ _ _ h => h) hv'
  exact ⟨w, w', hrn, hrn', rfl, congrArg Prod.fst hv, congrArg Prod.fst hv',
    congrArg Prod.snd hv, Option.isNone_iff_eq_none.mp (congrArg Prod.snd hv')⟩

end R9P.Front
