import R9P.Front.Links

/-!
# Freeing subtrees

Library `Front`. What `crates/front/src/model.rs` frees: the recursion over a subtree takes away
the nodes at or below its top with all their entries, and nothing else; the collection of the
subtrees that were taken out frees those below which no fid refers to a node.
-/

namespace R9P.Front
open Std Base Wire Server

namespace State

variable {s : State} {id i p c top : Nat} {n name : Bytes} {node : Node} {f g : Nat → Bool}
  {names : List Bytes}

/-- Some of the nodes stay, with their entries. -/
def keeping (s : State) (f : Nat → Bool) : State :=
  { s with
    nodes := s.nodes.filter fun id _ => f id
    qidIndex := s.qidIndex.filter fun _ id => f id
    fidReferences := s.fidReferences.filter fun id _ => f id
    detachedRoots := s.detachedRoots.filter f
    intakes := s.intakes.filter fun id _ => f id
    renameRelayRoots := s.renameRelayRoots.filter fun id _ => f id }

theorem keeping_keeping : (s.keeping f).keeping g = s.keeping fun i => f i && g i := by
  simp only [keeping, filter_filter, set_filter_filter]

theorem keeping_all : s.keeping (fun _ => true) = s := by
  simp only [keeping, filter_eq_self fun _ _ => rfl, set_filter_eq_self fun _ => rfl]

theorem nodes_keeping : (s.keeping f).nodes[i]? = if f i then s.nodes[i]? else none :=
  getElem?_filter_keys

theorem nodes_keeping_eq_some : (s.keeping f).nodes[i]? = some node ↔
    f i = true ∧ s.nodes[i]? = some node := by
  rw [nodes_keeping, Option.ite_none_right_eq_some]

theorem qidIndex_keeping_eq_some {q : UInt64} : (s.keeping f).qidIndex[q]? = some i ↔
    f i = true ∧ s.qidIndex[q]? = some i := by
  unfold keeping
  rw [ExtTreeMap.getElem?_filter', Option.filter_eq_some_iff, and_comm]

theorem fidReferences_keeping :
    (s.keeping f).fidReferences[i]? = if f i then s.fidReferences[i]? else none :=
  getElem?_filter_keys

theorem mem_detachedRoots_keeping :
    i ∈ (s.keeping f).detachedRoots ↔ i ∈ s.detachedRoots ∧ f i = true :=
  mem_set_filter

theorem links_keeping_eq_some : (s.keeping f).links p n = some c ↔
    f p = true ∧ s.links p n = some c := by
  rw [links_eq_some, links_eq_some]
  constructor
  · rintro ⟨node, hn, hlink⟩
    obtain ⟨hp, hn⟩ := nodes_keeping_eq_some.mp hn
    exact ⟨hp, node, hn, hlink⟩
  · rintro ⟨hp, node, hn, hlink⟩
    exact ⟨node, nodes_keeping_eq_some.mpr ⟨hp, hn⟩, hlink⟩

theorem within_of_keeping (h : (s.keeping f).links.Within top i) : s.links.Within top i :=
  h.mono fun _ _ _ hlink => (links_keeping_eq_some.mp hlink).2

theorem size_keeping_le : (s.keeping f).nodes.size ≤ s.nodes.size :=
  ExtTreeMap.size_filter_le_size

/-! ### The recursion -/

/-- The index of qid paths is the inverse of the nodes' qid paths. -/
def Indexed (s : State) : Prop :=
  ∀ (q : UInt64) (id : Nat), s.qidIndex[q]? = some id ↔
    ∃ node, s.nodes[id]? = some node ∧ node.qidPath = q

theorem Indexed.keeping (h : s.Indexed) : (s.keeping f).Indexed := by
  intro q i
  rw [qidIndex_keeping_eq_some, h q i]
  constructor
  · rintro ⟨hi, node, hn, hq⟩
    exact ⟨node, nodes_keeping_eq_some.mpr ⟨hi, hn⟩, hq⟩
  · rintro ⟨node, hn, hq⟩
    obtain ⟨hi, hn⟩ := nodes_keeping_eq_some.mp hn
    exact ⟨hi, node, hn, hq⟩

theorem freeNode_eq (h : s.Indexed) (hn : s.nodes[id]? = some node) :
    s.freeNode id node = s.keeping (· != id) := by
  have hm : ∀ {β : Type} (m : ExtTreeMap Nat β), m.erase id = m.filter fun i _ => i != id :=
    by
    intro β m
    apply ExtTreeMap.ext_getElem?
    intro i
    rw [get_erase, getElem?_filter_keys]
    by_cases hi : id = i
    · rw [if_pos hi, if_neg (by simp [hi])]
    · rw [if_neg hi, if_pos (by simp [Ne.symm hi])]
  have hst : s.detachedRoots.erase id = s.detachedRoots.filter (· != id) := by
    apply ExtTreeSet.ext_mem
    intro i
    rw [mem_set_erase_eq, mem_set_filter, bne_iff_ne, and_comm, ne_comm]
  have hin : s.qidIndex.erase node.qidPath = s.qidIndex.filter fun _ i => i != id := by
    apply ExtTreeMap.ext_getElem?
    intro q
    rw [get_erase, ExtTreeMap.getElem?_filter']
    split
    · next hq =>
      subst hq
      rw [(h node.qidPath id).mpr ⟨node, hn, rfl⟩, Option.filter_some, if_neg (by simp)]
    · next hq =>
      cases hi : s.qidIndex[q]? with
      | none => rfl
      | some i =>
        have hne : i ≠ id := by
          rintro rfl
          obtain ⟨node', hn', hq'⟩ := (h q i).mp hi
          cases hn.symm.trans hn'
          exact hq hq'
        rw [Option.filter_some, if_pos (bne_iff_ne.mpr hne)]
  unfold freeNode State.keeping
  rw [hm, hm, hm, hm, hst, hin]

/-- The recursion takes away nodes at or below its top. -/
theorem freeBelow_eq (fuel : Nat) : ∀ (id : Nat) (s : State), s.Indexed →
    ∃ f, freeBelow fuel id s = s.keeping f ∧ ∀ i, f i = false → s.links.Within id i := by
  induction fuel with
  | zero =>
    intro id s _
    exact ⟨fun _ => true, keeping_all.symm, fun _ hf => nomatch hf⟩
  | succ fuel ih =>
    intro id s hs
    unfold freeBelow
    cases hn : s.nodes[id]? with
    | none => exact ⟨fun _ => true, keeping_all.symm, fun _ hf => nomatch hf⟩
    | some node =>
      refine List.foldlRecOn (motive := fun t => ∃ f, t = s.keeping f ∧
        ∀ i, f i = false → s.links.Within id i) _ _ ?_ ?_
      · refine ⟨(· != id), freeNode_eq hs hn, fun i hi => ?_⟩
        rw [bne_eq_false_iff_eq] at hi
        subst hi
        exact .refl s.links i
      · rintro t ⟨f, rfl, hf⟩ child hch
        obtain ⟨g, heq, hg⟩ := ih child (s.keeping f) hs.keeping
        obtain ⟨name, hnm⟩ := Body.mem_childIds.mp hch
        have hlink : s.links id name = some child := (links_of_node hn).trans hnm
        refine ⟨fun i => f i && g i, heq.trans keeping_keeping, fun i hi => ?_⟩
        rcases Bool.and_eq_false_iff.mp hi with hi | hi
        · exact hf i hi
        · exact ((Links.Within.refl s.links id).child hlink).trans (within_of_keeping (hg i hi))

/-- What freeing does to a state: what was gone stays gone, and no child is left of a node that
is gone. -/
structure Clears (s s' : State) : Prop where
  gone : ∀ i : Nat, s.nodes[i]? = none → s'.nodes[i]? = none
  below : ∀ p n (c : Nat), s.links p n = some c → s'.nodes[p]? = none → s'.nodes[c]? = none

theorem Clears.refl (s : State) : Clears s s := by
  refine ⟨fun _ h => h, fun p n c hlink hp => ?_⟩
  rw [links_of_missing hp] at hlink
  cases hlink

/-- If the first step keeps a node, the second sees its links. -/
theorem Clears.trans {t : State} (hst : Clears s (s.keeping f)) (htu : Clears (s.keeping f) t) :
    Clears s t := by
  refine ⟨fun i hi => htu.gone i (hst.gone i hi), fun p n c hlink hp => ?_⟩
  cases hf : f p with
  | true => exact htu.below p n c (links_keeping_eq_some.mpr ⟨hf, hlink⟩) hp
  | false =>
    refine htu.gone c (hst.below p n c hlink ?_)
    rw [nodes_keeping, hf, if_neg Bool.false_ne_true]

/-- The loop over the children. -/
theorem freeChildren_clears {fuel : Nat}
    (ih : ∀ (id : Nat) (s : State), s.Indexed → s.nodes.size ≤ fuel →
      (freeBelow fuel id s).nodes[id]? = none ∧ Clears s (freeBelow fuel id s))
    (children : List Nat) : ∀ s : State, s.Indexed → s.nodes.size ≤ fuel → (∀ c ∈ children,
        (children.foldl (fun s child => freeBelow fuel child s) s).nodes[c]? = none) ∧
      Clears s (children.foldl (fun s child => freeBelow fuel child s) s) := by
  induction children with
  | nil =>
    intro s _ _
    exact ⟨fun c hc => absurd hc List.not_mem_nil, .refl s⟩
  | cons child children ihc =>
    intro s hs hsz
    obtain ⟨f, heq, _⟩ := freeBelow_eq fuel child s hs
    obtain ⟨hch, hcl⟩ := ih child s hs hsz
    rw [List.foldl_cons]
    rw [heq] at hch hcl ⊢
    obtain ⟨hr, ha⟩ := ihc (s.keeping f) hs.keeping (size_keeping_le.trans hsz)
    refine ⟨fun c hc => ?_, hcl.trans ha⟩
    rcases List.mem_cons.mp hc with rfl | hc
    · exact ha.gone c hch
    · exact hr c hc

/-- With a level for each node the recursion leaves no child of a node it took away. -/
theorem freeBelow_clears (fuel : Nat) : ∀ (id : Nat) (s : State), s.Indexed → s.nodes.size ≤ fuel →
      (freeBelow fuel id s).nodes[id]? = none ∧ Clears s (freeBelow fuel id s) := by
  induction fuel with
  | zero =>
    intro id s _ hsz
    exact ⟨getElem?_of_size_zero (Nat.le_zero.mp hsz), .refl s⟩
  | succ fuel ih =>
    intro id s hs hsz
    unfold freeBelow
    cases hn : s.nodes[id]? with
    | none => exact ⟨hn, .refl s⟩
    | some node =>
      dsimp only
      have hf : (s.freeNode id node).nodes.size ≤ fuel := by
        show (s.nodes.erase id).size ≤ fuel
        rw [ExtTreeMap.size_erase, if_pos]
        · omega
        · exact ExtTreeMap.mem_iff_contains.mp (mem_iff_exists.mpr ⟨node, hn⟩)
      rw [freeNode_eq hs hn] at hf ⊢
      obtain ⟨hc, hcl⟩ := freeChildren_clears ih node.body.childIds _ hs.keeping hf
      have hg : (s.keeping (· != id)).nodes[id]? = none := by
        rw [nodes_keeping, if_neg (by simp)]
      refine ⟨hcl.gone id hg, fun i hi => ?_, fun p n c hlink hp => ?_⟩
      · refine hcl.gone i ?_
        rw [nodes_keeping, hi, ite_self]
      · by_cases heq : p = id
        · subst heq
          rw [links_of_node hn] at hlink
          exact hc c (Body.mem_childIds.mpr ⟨n, hlink⟩)
        · exact hcl.below p n c (links_keeping_eq_some.mpr ⟨bne_iff_ne.mpr heq, hlink⟩) hp

open Classical in
/-- The nodes that do not lie at or below a node. -/
noncomputable def outside (s : State) (top : Nat) : Nat → Bool := fun i =>
  decide (¬ s.links.Within top i)

open Classical in
theorem outside_eq_true : s.outside top i = true ↔ ¬ s.links.Within top i := decide_eq_true_iff

theorem outside_eq_false : s.outside top i = false ↔ s.links.Within top i := by
  rw [← Bool.not_eq_true, outside_eq_true, not_not]

/-- What is left when a node goes with all that lies below it. -/
noncomputable def drop (s : State) (top : Nat) : State := s.keeping (s.outside top)

/-- `remove_node_recursive` takes away what lies at or below the node, and nothing else. -/
theorem removeNodeRecursive_eq (hs : s.Indexed)
    (he : ∀ i : Nat, s.links.Within id i → ∃ node, s.nodes[i]? = some node) :
    s.removeNodeRecursive id = s.drop id := by
  obtain ⟨f, heq, hf⟩ := freeBelow_eq s.nodes.size id s hs
  obtain ⟨hid, hcl⟩ := freeBelow_clears s.nodes.size id s hs le_rfl
  have hg : ∀ i, s.links.Within id i → f i = false := by
    intro i hi
    have hnn : (freeBelow s.nodes.size id s).nodes[i]? = none :=
      hi.rec_on (P := fun i => (freeBelow s.nodes.size id s).nodes[i]? = none) hid
        fun p n c _ hp hlink => hcl.below p n c hlink hp
    obtain ⟨node, hn⟩ := he i hi
    cases hfi : f i with
    | false => rfl
    | true =>
      rw [heq, nodes_keeping, hfi, if_pos rfl, hn] at hnn
      cases hnn
  unfold removeNodeRecursive drop
  rw [heq]
  congr 1
  funext i
  cases hfi : f i with
  | true =>
    refine (outside_eq_true.mpr fun hi => ?_).symm
    rw [hg i hi] at hfi
    cases hfi
  | false => exact (outside_eq_false.mpr (hf i hfi)).symm

/-! ### Subtrees with fids -/

/-- A fid refers to a node at or below this one. -/
def Referred (s : State) (top : Nat) : Prop :=
  ∃ i, s.links.Within top i ∧ i ∈ s.fidReferences

theorem referred_of_referenceBelow (fuel : Nat) :
    ∀ top, s.referenceBelow fuel top = true → s.Referred top := by
  induction fuel with
  | zero =>
    intro top h
    cases h
  | succ fuel ih =>
    intro top h
    rcases Bool.or_eq_true_iff.mp h with h | h
    · exact ⟨top, .refl s.links top, ExtTreeMap.mem_iff_contains.mpr h⟩
    · split at h
      · next node hn =>
        obtain ⟨child, hch, hb⟩ := List.any_eq_true.mp h
        obtain ⟨name, hnm⟩ := Body.mem_childIds.mp hch
        obtain ⟨i, hi, hrf⟩ := ih child hb
        have hlink : s.links top name = some child := (links_of_node hn).trans hnm
        exact ⟨i, ((Links.Within.refl s.links top).child hlink).trans hi, hrf⟩
      · cases h

theorem referenceBelow_of_follow (hrf : i ∈ s.fidReferences) :
    ∀ (fuel top : Nat), s.links.follow top names = some i → names.length < fuel →
      s.referenceBelow fuel top = true := by
  induction names with
  | nil =>
    rintro (_ | fuel) top hf hl
    · cases hl
    · cases hf
      unfold referenceBelow
      rw [ExtTreeMap.mem_iff_contains.mp hrf, Bool.true_or]
  | cons name names ih =>
    rintro (_ | fuel) top hf hl
    · cases hl
    · obtain ⟨child, hlink, hr⟩ := Option.bind_eq_some_iff.mp hf
      obtain ⟨node, hn, hnm⟩ := links_eq_some.mp hlink
      unfold referenceBelow
      rw [hn, Bool.or_eq_true_iff]
      refine .inr (List.any_eq_true.mpr ⟨child, Body.mem_childIds.mpr ⟨name, hnm⟩, ?_⟩)
      exact ih fuel child hr (Nat.lt_of_succ_lt_succ hl)

section
variable (hs : s.Sound) (he : ∃ node, s.nodes[top]? = some node)
include hs he

/-- A path down from a node that exists is shorter than the table. -/
theorem Sound.length_lt (hf : s.links.follow top names = some i) : names.length < s.nodes.size := by
  obtain ⟨node, hn⟩ := he
  obtain ⟨root, hr, front, hfr⟩ := hs.covered top node hn
  have hl : s.links.follow root (front ++ names) = some i := by
    rw [Links.follow_append, hfr]
    exact hf
  have hlt := hs.single.length_lt (hs.top_of_isTop hr) (keySet s.nodes) (fun j hj => by
    rw [mem_keySet, mem_iff_exists]
    exact hs.exists_of_within hj (hs.exists_of_isTop hr)) hl
  rw [card_keySet, List.length_append] at hlt
  omega

theorem Sound.subtreeHasFidReference : s.subtreeHasFidReference top = true ↔ s.Referred top := by
  constructor
  · exact referred_of_referenceBelow _ top
  · rintro ⟨i, ⟨names, hf⟩, hrf⟩
    exact referenceBelow_of_follow hrf _ top hf
      (Nat.lt_succ_of_lt (hs.length_lt he hf))

end

/-- The search reads the nodes and the references. -/
theorem referenceBelow_congr {s' : State} (hn : s'.nodes = s.nodes)
    (hrr : s'.fidReferences = s.fidReferences) (fuel : Nat) :
    ∀ top, s'.referenceBelow fuel top = s.referenceBelow fuel top := by
  induction fuel with
  | zero =>
    intro top
    rfl
  | succ fuel ih =>
    intro top
    unfold referenceBelow
    rw [hn, hrr, funext ih]

/-! ### Freeing whole trees -/

/-- Whole trees stay or go, and the tree below the root stays. -/
structure Whole (s : State) (f : Nat → Bool) : Prop where
  root : f ROOT_ID = true
  along : ∀ p n c, s.links p n = some c → f c = f p

namespace Whole

theorem within (hf : s.Whole f) (h : s.links.Within top i) : f i = f top :=
  h.rec_on (P := fun i => f i = f top) rfl fun p n c _ ih hlink => (hf.along p n c hlink).trans ih

theorem attached (hf : s.Whole f) (h : s.Attached i) : f i = true :=
  (hf.within h).trans hf.root

theorem all (s : State) : s.Whole fun _ => true := ⟨rfl, fun _ _ _ _ => rfl⟩

theorem and (hf : s.Whole f) (hg : (s.keeping f).Whole g) : s.Whole fun i => f i && g i := by
  refine ⟨by rw [hf.root, hg.root]; rfl, fun p n c hlink => ?_⟩
  rw [hf.along p n c hlink]
  cases hp : f p with
  | false => rfl
  | true => rw [hg.along p n c (links_keeping_eq_some.mpr ⟨hp, hlink⟩)]

/-- Below a node that stays nothing changes. -/
theorem within_keeping (hf : s.Whole f) (ht : f top = true) (h : s.links.Within top i) :
    (s.keeping f).links.Within top i := by
  refine h.rec_on (P := (s.keeping f).links.Within top) (.refl _ top) ?_
  intro p n c hp ih hlink
  exact ih.child (links_keeping_eq_some.mpr ⟨(hf.within hp).trans ht, hlink⟩)

theorem attached_keeping (hf : s.Whole f) (h : s.Attached i) : (s.keeping f).Attached i :=
  hf.within_keeping hf.root h

/-- The paths in the tree stay. -/
theorem follow_keeping (hf : s.Whole f)
    (h : s.links.follow ROOT_ID names = some i) :
    (s.keeping f).links.follow ROOT_ID names = some i := by
  refine (Links.follow_congr fun p hp n => ?_).trans h
  cases hlink : s.links p n with
  | some c => exact links_keeping_eq_some.mpr ⟨hf.attached hp, hlink⟩
  | none =>
    cases hk : (s.keeping f).links p n with
    | none => rfl
    | some c =>
      rw [(links_keeping_eq_some.mp hk).2] at hlink
      cases hlink

end Whole

theorem Sound.keeping (hs : s.Sound) (hf : s.Whole f) : (s.keeping f).Sound := by
  constructor
  · obtain ⟨node, hn, hp⟩ := hs.root
    exact ⟨node, nodes_keeping_eq_some.mpr ⟨hf.root, hn⟩, hp⟩
  · intro hm
    exact hs.rootKept (mem_detachedRoots_keeping.mp hm).1
  · intro i node hn
    exact hs.fresh i node (nodes_keeping_eq_some.mp hn).2
  · exact Indexed.keeping hs.indexed
  · intro p n c hlink
    obtain ⟨hp, hlink⟩ := links_keeping_eq_some.mp hlink
    obtain ⟨ht, child, hch, hpl⟩ := hs.listed p n c hlink
    have hc : f c = true := (hf.along p n c hlink).trans hp
    refine ⟨fun h => ht ?_, child, nodes_keeping_eq_some.mpr ⟨hc, hch⟩, hpl⟩
    exact h.imp_right fun h => (mem_detachedRoots_keeping.mp h).1
  · intro d hm
    obtain ⟨hm, hk⟩ := mem_detachedRoots_keeping.mp hm
    obtain ⟨node, hn⟩ := hs.detached d hm
    exact ⟨node, nodes_keeping_eq_some.mpr ⟨hk, hn⟩⟩
  · intro i node hn
    obtain ⟨hi, hn⟩ := nodes_keeping_eq_some.mp hn
    obtain ⟨root, hist, hw⟩ := hs.covered i node hn
    have hr : f root = true := (hf.within hw).symm.trans hi
    refine ⟨root, hist.imp_right fun h => mem_detachedRoots_keeping.mpr ⟨h, hr⟩,
      hf.within_keeping hr hw⟩
  · intro i count hcn
    rw [fidReferences_keeping, Option.ite_none_right_eq_some] at hcn
    obtain ⟨node, hn⟩ := hs.referenced i count hcn.2
    exact ⟨node, nodes_keeping_eq_some.mpr ⟨hcn.1, hn⟩⟩

section Drop

variable (hs : s.Sound) (hd : top ∈ s.detachedRoots)

include hs hd

theorem Sound.outside_of_isTop (hi : s.IsTop i) (hne : i ≠ top) : s.outside top i = true := by
  refine outside_eq_true.mpr fun hw => hne ?_
  exact hs.single.top_unique (hs.top_of_isTop (.inr hd)) (hs.top_of_isTop hi) hw (.refl s.links i)

theorem Sound.whole_outside : s.Whole (s.outside top) := by
  refine ⟨hs.outside_of_isTop hd (.inl rfl) fun heq => hs.rootKept (heq ▸ hd), ?_⟩
  intro p n c hlink
  cases hp : s.outside top p with
  | false => exact outside_eq_false.mpr ((outside_eq_false.mp hp).child hlink)
  | true =>
    -- A child below the top has its parent there: the top itself is nobody's child.
    refine outside_eq_true.mpr fun hc => ?_
    rcases hc.last with rfl | ⟨q, m, hq, hlink'⟩
    · exact (hs.listed p n c hlink).1 (.inr hd)
    · obtain ⟨rfl, _⟩ := hs.single p n q m c hlink hlink'
      exact outside_eq_true.mp hp hq

/-- A top goes, whether or not it is still among the subtrees that were taken out. -/
theorem Sound.removeTop (tops : ExtTreeSet Nat)
    (ht : ∀ i, i ≠ top → (i ∈ tops ↔ i ∈ s.detachedRoots)) :
    { s with detachedRoots := tops }.removeNodeRecursive top = s.drop top := by
  have he : ∀ i, s.links.Within top i → ∃ node, s.nodes[i]? = some node := fun i hi =>
    hs.exists_of_within hi (hs.detached top hd)
  have heq := removeNodeRecursive_eq (s := { s with detachedRoots := tops }) hs.indexed he
  rw [heq]
  have hst : tops.filter (s.outside top) = s.detachedRoots.filter (s.outside top) := by
    apply ExtTreeSet.ext_mem
    intro i
    rw [mem_set_filter, mem_set_filter]
    refine and_congr_left fun hi => ht i ?_
    rintro rfl
    exact outside_eq_true.mp hi (Links.Within.refl s.links i)
  show { s.drop top with detachedRoots := tops.filter (s.outside top) } = s.drop top
  rw [hst]
  rfl

end Drop

/-- The loop of the collection: the listed tops go, the others stay. -/
theorem collect_loop (tops : List Nat) : ∀ s : State, s.Sound → tops.Nodup →
    (∀ d ∈ tops, d ∈ s.detachedRoots) →
      ∃ f, s.Whole f ∧ tops.foldl (fun s id =>
          { s with detachedRoots := s.detachedRoots.erase id }.removeNodeRecursive id) s =
            s.keeping f ∧
        ∀ d ∈ s.detachedRoots, (f d = true ↔ d ∉ tops) := by
  induction tops with
  | nil =>
    intro s _ _ _
    exact ⟨fun _ => true, Whole.all s, keeping_all.symm, fun _ _ => by simp⟩
  | cons top tops ih =>
    intro s hs hn hm
    obtain ⟨hnt, hn⟩ := List.nodup_cons.mp hn
    have hd := hm top List.mem_cons_self
    have hw := hs.whole_outside hd
    have hsp := hs.removeTop hd (s.detachedRoots.erase top) (fun i hi => by
      rw [mem_set_erase_eq]
      exact and_iff_right hi.symm)
    have ho : ∀ d ∈ s.detachedRoots, d ≠ top → s.outside top d = true := fun d hm hne =>
      hs.outside_of_isTop hd (.inr hm) hne
    obtain ⟨g, hg, heq, hst⟩ := ih (s.keeping (s.outside top)) (hs.keeping hw) hn
      fun d hdm => by
        have hds := hm d (List.mem_cons_of_mem top hdm)
        refine mem_detachedRoots_keeping.mpr ⟨hds, ho d hds ?_⟩
        rintro rfl
        exact hnt hdm
    refine ⟨fun i => s.outside top i && g i, hw.and hg, ?_, fun d hds => ?_⟩
    · rw [List.foldl_cons, hsp]
      exact heq.trans keeping_keeping
    · show (s.outside top d && g d) = true ↔ _
      rw [List.mem_cons, not_or]
      by_cases hne : d = top
      · subst hne
        rw [outside_eq_false.mpr (Links.Within.refl s.links d)]
        simp
      · rw [ho d hds hne, Bool.true_and,
          hst d (mem_detachedRoots_keeping.mpr ⟨hds, ho d hds hne⟩)]
        exact (and_iff_right hne).symm

/-- The collection takes away the subtrees to which no fid refers, and nothing else. -/
theorem Sound.collect (hs : s.Sound) : ∃ f, s.Whole f ∧
    s.collectUnreferencedDetachedSubtrees = s.keeping f ∧
      ∀ d ∈ s.detachedRoots, (f d = true ↔ s.Referred d) := by
  obtain ⟨f, hf, heq, hst⟩ := collect_loop
    (s.detachedRoots.toList.filter fun id => !s.subtreeHasFidReference id) s hs
    (nodup_set_toList.filter _) fun d hd =>
      ExtTreeSet.mem_toList.mp (List.mem_filter.mp hd).1
  refine ⟨f, hf, heq, fun d hd => (hst d hd).trans ?_⟩
  rw [List.mem_filter, ExtTreeSet.mem_toList, ← hs.subtreeHasFidReference (hs.detached d hd)]
  simp [hd]

/-- Every subtree that was taken out has a node to which a fid refers. -/
def Held (s : State) : Prop := ∀ d ∈ s.detachedRoots, s.Referred d

theorem Whole.referred (hf : s.Whole f) (ht : f top = true) (h : s.Referred top) :
    (s.keeping f).Referred top := by
  obtain ⟨i, hi, hrf⟩ := h
  refine ⟨i, hf.within_keeping ht hi, ?_⟩
  rw [mem_iff_exists] at hrf ⊢
  rwa [fidReferences_keeping, (hf.within hi).trans ht, if_pos rfl]

theorem Sound.held_collect (hs : s.Sound) : s.collectUnreferencedDetachedSubtrees.Held := by
  obtain ⟨f, hf, heq, hst⟩ := hs.collect
  rw [heq]
  intro d hd
  obtain ⟨hd, hk⟩ := mem_detachedRoots_keeping.mp hd
  exact hf.referred hk ((hst d hd).mp hk)

/-- Where every tree with a reference stays, no reference goes. -/
theorem Sound.fidReferences_keeping (hs : s.Sound) (hf : s.Whole f)
    (hst : ∀ d ∈ s.detachedRoots, s.Referred d → f d = true) :
    (s.keeping f).fidReferences = s.fidReferences := by
  apply ExtTreeMap.ext_getElem?
  intro i
  rw [State.fidReferences_keeping]
  cases hcn : s.fidReferences[i]? with
  | none => rw [ite_self]
  | some count =>
    obtain ⟨node, hn⟩ := hs.referenced i count hcn
    obtain ⟨top, ht, hw⟩ := hs.covered i node hn
    rw [hf.within hw, if_pos]
    rcases ht with rfl | hd
    · exact hf.root
    · exact hst top hd ⟨i, hw, mem_iff_exists.mpr ⟨count, hcn⟩⟩

/-! ### Taking subtrees out -/

section Detach

variable (hs : s.Sound) (hlink : s.links p n = some id)

include hs hlink

/-- A subtree that is taken out stays as a tree of its own while a fid refers to a node of it,
and goes otherwise. -/
theorem Sound.detach : ∃ f, (s.cut p n id).Whole f ∧ s.detach p n id = (s.cut p n id).keeping f ∧
    ∀ d, (s.cut p n id).IsTop d → (f d = true ↔ d ≠ id ∨ (s.cut p n id).Referred id) := by
  have hc := hs.cut hlink
  have hid : id ∈ (s.cut p n id).detachedRoots := mem_set_insert_eq.mpr (.inl rfl)
  have hn : (s.unlinkChild p n).nodes = (s.cut p n id).nodes := rfl
  have hrr : (s.unlinkChild p n).fidReferences = (s.cut p n id).fidReferences := rfl
  have hsm : (s.unlinkChild p n).subtreeHasFidReference id =
      (s.cut p n id).subtreeHasFidReference id := referenceBelow_congr hn hrr _ id
  have hrf := hc.subtreeHasFidReference (hc.detached id hid)
  unfold State.detach retireDetachedSubtree
  rw [hsm]
  by_cases h : (s.cut p n id).subtreeHasFidReference id = true
  · rw [if_pos h]
    refine ⟨fun _ => true, Whole.all _, keeping_all.symm, fun d _ => ?_⟩
    exact ⟨fun _ => .inr (hrf.mp h), fun _ => rfl⟩
  · rw [if_neg h]
    refine ⟨_, hc.whole_outside hid, ?_, fun d hd => ?_⟩
    · refine hc.removeTop hid s.detachedRoots fun i hi => ?_
      show _ ↔ i ∈ s.detachedRoots.insert id
      rw [mem_set_insert_eq]
      exact (or_iff_right hi.symm).symm
    · rw [or_iff_left fun hr => h (hrf.mpr hr)]
      constructor
      · rintro ho rfl
        exact outside_eq_true.mp ho (Links.Within.refl _ d)
      · exact hc.outside_of_isTop hid hd

theorem Sound.sound_detach : (s.detach p n id).Sound := by
  obtain ⟨f, hf, heq, _⟩ := hs.detach hlink
  rw [heq]
  exact (hs.cut hlink).keeping hf

/-- No reference goes when a subtree is taken out. -/
theorem Sound.fidReferences_detach : (s.detach p n id).fidReferences = s.fidReferences := by
  obtain ⟨f, hf, heq, hst⟩ := hs.detach hlink
  rw [heq]
  refine (hs.cut hlink).fidReferences_keeping hf fun d hd hrf => ?_
  refine (hst d (.inr hd)).mpr ?_
  by_cases hne : d = id
  · subst hne
    exact .inr hrf
  · exact .inl hne

omit hlink in
/-- Below the tops there were before, a cut inside the tree changes nothing. -/
theorem Sound.referred_cut (hlink : s.links p n = some id) (hp : s.Attached p)
    {d : Nat} (hd : d ∈ s.detachedRoots) (h : s.Referred d) : (s.cut p n id).Referred d := by
  obtain ⟨i, hi, hrf⟩ := h
  rcases within_cut hlink hi with hw | hw
  · exact ⟨i, hw, hrf⟩
  · exact absurd ((hp.child hlink).trans (within_of_cut hw)) (hs.not_attached_of_within hd hi)

theorem Sound.held_detach (hh : s.Held) (hp : s.Attached p) : (s.detach p n id).Held := by
  obtain ⟨f, hf, heq, hst⟩ := hs.detach hlink
  rw [heq]
  intro d hd
  obtain ⟨hd, hk⟩ := mem_detachedRoots_keeping.mp hd
  refine hf.referred hk ?_
  by_cases hne : d = id
  · subst hne
    exact ((hst d (.inr hd)).mp hk).resolve_left fun h => h rfl
  · have ho := (mem_set_insert_eq.mp hd).resolve_left (Ne.symm hne)
    exact hs.referred_cut hlink hp ho (hh d ho)

end Detach

end State

end R9P.Front
