import R9P.Front.Structure

/-!
# Retaining paths below a directory

Library `Front`. `retainSubtreePaths` (`model.rs:995`) climbs from every listed path to the root of
the removal, collects the children that were not passed, and takes them out one after the other.
What it leaves below the root is what it passed, and nothing else changes.
-/

namespace R9P.Front

open Std Base
open Base.Checked

/-- A node without the names of its children: its name, place, versions, metadata, and content. -/
def Node.bare (node : Node) : Node := node.mapChildren fun _ => ∅

theorem Node.bare_mapChildren (node : Node)
    (f : ExtTreeMap Bytes Nat → ExtTreeMap Bytes Nat) :
    (node.mapChildren f).bare = node.bare := by
  unfold bare mapChildren
  cases node.body <;> rfl

namespace State

variable {s s' : State} {i root : Nat} {stale : List (Nat × Bytes × Nat)} {e : Nat × Bytes × Nat}

/-- A node that is the root of the removal, or lies on the way from it to a listed path. -/
def OnPath (s : State) (root : Nat) (paths : List Bytes) (i : Nat) : Prop :=
  i = root ∨ ∃ path ∈ paths, ∃ target, s.lookupPath (canonicalRootPath path) = .ok target ∧
    s.links.Within root i ∧ s.links.Within i target

/-- What is left when only the nodes on the listed paths stay below a root. -/
structure Retained (s : State) (root : Nat) (paths : List Bytes) (s' : State) : Prop where
  below : ∀ i, s'.links.Within root i ↔ s.OnPath root paths i
  links : ∀ p n c, s.OnPath root paths p →
    (s'.links p n = some c ↔ s.links p n = some c ∧ s.OnPath root paths c)
  nodes : ∀ i, s.OnPath root paths i →
    (s'.nodes[i]?).map Node.bare = (s.nodes[i]?).map Node.bare ∧ s.nodes[i]?.isSome
  outside : ∀ i, ¬ s.links.Within root i → s'.nodes[i]? = s.nodes[i]?
  references : s'.fidReferences = s.fidReferences
  held : ∀ i, i ∈ s.fidReferences → (s'.nodes[i]?).isSome

/-! ### Taking subtrees out -/

/-- What becomes of the nodes that lie in none of the subtrees taken out. -/
structure Trimmed (s : State) (stale : List (Nat × Bytes × Nat)) (s' : State) (i : Nat) :
    Prop where
  bare : (s'.nodes[i]?).map Node.bare = (s.nodes[i]?).map Node.bare
  same : (∀ e ∈ stale, e.1 ≠ i) → s'.nodes[i]? = s.nodes[i]?
  links : ∀ n, s'.links i n = if ∃ e ∈ stale, e.1 = i ∧ e.2.1 = n then none else s.links i n

theorem nodes_detach {p id : Nat} {n : Bytes} (hs : s.Sound) (hl : s.links p n = some id)
    (hi : ¬ s.links.Within id i) :
    (s.detach p n id).nodes[i]? = (s.cut p n id).nodes[i]? := by
  obtain ⟨f, hf, heq, ht⟩ := hs.detach hl
  rw [heq, nodes_keeping]
  cases hn : (s.cut p n id).nodes[i]? with
  | none => rw [ite_self]
  | some node =>
    obtain ⟨top, hist, hw⟩ := (hs.cut hl).covered i node hn
    have hne : top ≠ id := by
      rintro rfl
      exact hi (within_of_cut hw)
    rw [hf.within hw, if_pos ((ht top hist).mpr (.inl hne))]

theorem trimmed_detach (hs : s.Sound)
    (hl : s.links e.1 e.2.1 = some e.2.2) (hi : ¬ s.links.Within e.2.2 i) :
    s.Trimmed [e] (s.detach e.1 e.2.1 e.2.2) i := by
  have hn := nodes_detach hs hl hi
  have hu : (s.cut e.1 e.2.1 e.2.2).nodes[i]? =
      if e.1 = i then (s.nodes[i]?).map (·.mapChildren (·.erase e.2.1)) else s.nodes[i]? :=
    nodes_updateNode s e.1 _ i
  refine ⟨?_, fun h => ?_, fun n => ?_⟩
  · rw [hn, hu]
    split
    · rw [Option.map_map]
      congr 1
      funext node
      exact node.bare_mapChildren _
    · rfl
  · rw [hn, hu, if_neg (h e List.mem_cons_self)]
  · have hk : (s.detach e.1 e.2.1 e.2.2).links i n = (s.cut e.1 e.2.1 e.2.2).links i n := by
      unfold State.links
      rw [hn]
    rw [hk, links_cut]
    simp only [List.mem_singleton, exists_eq_left]

theorem Trimmed.trans {s₁ : State} (h : s.Trimmed [e] s₁ i)
    (h' : s₁.Trimmed stale s' i) : s.Trimmed (e :: stale) s' i := by
  refine ⟨h'.bare.trans h.bare, fun hne => ?_, fun n => ?_⟩
  · rw [h'.same fun e' he' => hne e' (List.mem_cons_of_mem e he'),
      h.same fun e' he' => hne e' (List.mem_cons.mpr (.inl (List.mem_singleton.mp he')))]
  · rw [h'.links, h.links]
    by_cases hst : ∃ e' ∈ stale, e'.1 = i ∧ e'.2.1 = n
    · rw [if_pos hst, if_pos]
      obtain ⟨e', he', h⟩ := hst
      exact ⟨e', List.mem_cons_of_mem e he', h⟩
    · rw [if_neg hst]
      simp only [List.mem_cons, exists_eq_or_imp, hst, List.not_mem_nil, false_and, exists_false]

theorem trimmed_detachAll (stale : List (Nat × Bytes × Nat)) : ∀ s : State, s.Firm →
    s.Apart stale → (∀ e ∈ stale, ¬ s.links.Within e.2.2 i) → s.Trimmed stale
      (stale.foldl (fun self (parent, name, id) => self.detach parent name id) s) i := by
  induction stale with
  | nil =>
    intro s _ _ _
    exact ⟨rfl, fun _ => rfl, fun n => (if_neg fun ⟨_, he, _⟩ => nomatch he).symm⟩
  | cons e stale ih =>
    intro s hs ha hi
    have hl := ha.link e List.mem_cons_self
    have hf := (took_detach hs hl (ha.attached e List.mem_cons_self) (.ok ())).1.firm
    refine (trimmed_detach hs.sound hl (hi e List.mem_cons_self)).trans
      (ih _ hf (ha.detach hs.sound) fun e' he' hw => ?_)
    obtain ⟨f, _, heq, _⟩ := hs.sound.detach hl
    rw [heq] at hw
    exact hi e' (List.mem_cons_of_mem e he') (within_of_cut (within_of_keeping hw))

/-! ### The way up and the search down -/

/-- The way up passes what lies between the root of the removal and the node it starts at. -/
theorem climb_ok (hs : s.Sound) (fuel : Nat) : ∀ current passed, s.Attached current →
    s.climb root fuel current = .ok passed → s.links.Within root current ∧
      ∀ i, i ∈ passed ↔ s.links.Within root i ∧ s.links.Within i current := by
  induction fuel with
  | zero =>
    intro current passed _ h
    cases h
  | succ fuel ih =>
    intro current passed ha h
    unfold climb at h
    split at h
    · next heq =>
      cases h
      subst heq
      refine ⟨.refl _ _, fun i => ?_⟩
      rw [List.mem_singleton]
      constructor
      · rintro rfl
        exact ⟨.refl _ _, .refl _ _⟩
      · rintro ⟨hi, hw⟩
        exact (hs.single.antisymm hs.rootTop ha hi hw).symm
    · next hne =>
      obtain ⟨node, hn, h⟩ := bind_ok.mp h
      have hn := node_ok hn
      split at h
      · cases h
      · next hp =>
        obtain ⟨above, hab, h⟩ := bind_ok.mp h
        cases h
        have hr : current ≠ ROOT_ID := by
          rintro rfl
          obtain ⟨node', hn', hp', _⟩ := hs.root
          cases hn.symm.trans hn'
          exact hp hp'
        obtain ⟨hl, hpa⟩ := hs.linked_of_attached hn ha hr
        obtain ⟨hw, hm⟩ := ih node.parent above hpa hab
        refine ⟨hw.child hl, fun i => ?_⟩
        rw [List.mem_cons, hm]
        constructor
        · rintro (rfl | ⟨hi, hwp⟩)
          · exact ⟨hw.child hl, .refl _ _⟩
          · exact ⟨hi, hwp.child hl⟩
        · rintro ⟨hi, hwc⟩
          rcases hwc.last with rfl | ⟨p, n, hp, hl'⟩
          · exact .inl rfl
          · obtain ⟨rfl, _⟩ := hs.single _ _ p n current hl hl'
            exact .inr ⟨hi, hp⟩

theorem Spared.first {retained : List Nat} (h : s.Spared retained root i) :
    i = root ∨ ∃ n c, s.links root n = some c ∧ c ∈ retained ∧ s.Spared retained c i := by
  induction h with
  | root => exact .inl rfl
  | @child p n c _ hl hr ih =>
    rcases ih with rfl | ⟨m, d, hd, hdr, hsp⟩
    · exact .inr ⟨n, c, hl, hr, .root⟩
    · exact .inr ⟨m, d, hd, hdr, hsp.child hl hr⟩

/-- The search finds every child that is not retained of a node that is kept. -/
theorem staleBelow_complete {retained : List Nat} (hs : s.Sound) (fuel : Nat) :
    ∀ names parent stale, s.links.follow ROOT_ID names = some parent →
      s.nodes.size ≤ fuel + names.length → s.staleBelow retained fuel parent = .ok stale →
      ∀ p n c, s.Spared retained parent p → s.links p n = some c → c ∉ retained →
        (p, n, c) ∈ stale := by
  induction fuel with
  | zero =>
    intro names parent stale hf hsz
    have hlt := hs.length_lt (hs.exists_of_isTop (.inl rfl)) hf
    omega
  | succ fuel ih =>
    intro names parent stale hf hsz h p n c hp hl hc
    obtain ⟨node, hn, h⟩ := bind_ok.mp h
    have hn := node_ok hn
    split at h
    · next directory hb =>
      obtain ⟨parts, hpt, h⟩ := bind_ok.mp h
      cases h
      have hmm : ∀ m d, s.links parent m = some d → (m, d) ∈ directory.children.toList := by
        intro m d hm
        rw [links_of_node hn, hb] at hm
        exact ExtTreeMap.mem_toList_iff_getElem?_eq_some.mpr hm
      -- The part of the result that belongs to a child is in the result.
      have hpr := fun m d hm =>
        forall₂_mem_right (.flip (mapM_ok hpt)) (hmm m d hm)
      rcases hp.first with rfl | ⟨m, d, hd, hdr, hsp⟩
      · obtain ⟨part, hin, h⟩ := hpr n c hl
        dsimp only at h
        rw [if_neg hc] at h
        cases h
        exact List.mem_flatten.mpr ⟨_, hin, List.mem_singleton.mpr rfl⟩
      · obtain ⟨part, hin, h⟩ := hpr m d hd
        dsimp only at h
        rw [if_pos hdr] at h
        obtain ⟨found, hfd, h⟩ := bind_ok.mp h
        refine List.mem_flatten.mpr ⟨part, hin, ?_⟩
        split at h
        · refine ih (names ++ [m]) d part (Links.follow_concat.mpr ⟨parent, hf, hd⟩) ?_ h p n c
            hsp hl hc
          rw [List.length_append, List.length_singleton]
          omega
        · next hdi =>
          -- A node that is not a directory has nothing below it.
          have hno : ∀ n c, s.links d n ≠ some c := by
            intro n c hlk
            rw [links_of_node (node_ok hfd), Body.children_of_not_dir (by simpa using hdi),
              ExtTreeMap.getElem?_empty] at hlk
            cases hlk
          rcases hsp.first with rfl | ⟨m', d', hd', _⟩
          · exact absurd hl (hno n c)
          · exact absurd hd' (hno m' d')
    · cases h

/-- What the checks of a removal establish before it changes anything. -/
theorem staleSubtrees_spec {rootPath : Bytes} {paths : List Bytes} (hs : s.Sound)
    (h : s.staleSubtrees rootPath paths = .ok stale) :
    ∃ root retained, s.lookupPath (canonicalRootPath rootPath) = .ok root ∧
      s.StaleUnder retained root root stale ∧
      (∀ i, s.Spared retained root i ↔ s.OnPath root paths i) ∧ root ∈ retained ∧
      ∀ p n c, s.Spared retained root p → s.links p n = some c → c ∉ retained →
        (p, n, c) ∈ stale := by
  obtain ⟨root, rootSegments, chains, hr, hch, h, hu⟩ := staleSubtrees_ok hs h
  have ha := attached_of_lookupPath hr
  have hal := mapM_ok hch
  -- Each listed path contributes the nodes between the root and the node it names.
  have hcn : ∀ path chain, s.retainedBy root rootSegments path = .ok chain →
      ∃ target, s.lookupPath (canonicalRootPath path) = .ok target ∧
        ∀ i, i ∈ chain ↔ s.links.Within root i ∧ s.links.Within i target := by
    intro path chain hp
    obtain ⟨segments, _, hp⟩ := bind_ok.mp hp
    split at hp
    · cases hp
    obtain ⟨target, htg, hp⟩ := bind_ok.mp hp
    exact ⟨target, htg, (climb_ok hs _ target chain (attached_of_lookupPath htg) hp).2⟩
  have hmm : ∀ i, s.links.Within root i → (i ∈ root :: chains.flatten ↔ s.OnPath root paths i) := by
    intro i hi
    rw [List.mem_cons, List.mem_flatten]
    refine or_congr_right ⟨?_, ?_⟩
    · rintro ⟨chain, hin, hic⟩
      obtain ⟨path, hpt, hrb⟩ := forall₂_mem_right hal hin
      obtain ⟨target, htg, hm⟩ := hcn path chain hrb
      exact ⟨path, hpt, target, htg, (hm i).mp hic⟩
    · rintro ⟨path, hpt, target, htg, hw⟩
      obtain ⟨chain, hin, hrb⟩ := forall₂_mem_right (List.Forall₂.flip hal) hpt
      obtain ⟨target', htg', hm⟩ := hcn path chain hrb
      cases htg.symm.trans htg'
      exact ⟨chain, hin, (hm i).mpr hw⟩
  refine ⟨root, root :: chains.flatten, hr, hu, fun i => ?_, List.mem_cons_self, ?_⟩
  · constructor
    · intro hsp
      refine (hmm i hsp.within).mp ?_
      rcases hsp.between hs ha hsp.within (Links.Within.refl _ i) with rfl | hin
      · exact List.mem_cons_self
      · exact hin
    · intro hon
      have hw : s.links.Within root i := by
        rcases hon with rfl | ⟨_, _, _, _, hw, _⟩
        · exact Links.Within.refl _ _
        · exact hw
      -- Down the way from the root: what lies above a node on a path is on that path.
      refine hw.rec_on (P := fun i => s.OnPath root paths i → s.Spared _ root i)
        (fun _ => .root) (fun p n c hp ih hl hon => ?_) hon
      have hc := (hmm c (hp.child hl)).mpr hon
      refine (ih ?_).child hl hc
      rcases hon with rfl | ⟨path, hpt, target, htg, _, hct⟩
      · exact .inl
          (hs.single.antisymm hs.rootTop ha hp ((Links.Within.refl _ p).child hl)).symm
      · exact .inr ⟨path, hpt, target, htg, hp,
          ((Links.Within.refl _ p).child hl).trans hct⟩
  · obtain ⟨names, hf⟩ := ha
    exact staleBelow_complete hs _ names root stale hf (by omega) h

/-- The removal leaves exactly what lies on the listed paths. -/
theorem retained_of_staleSubtrees {rootPath : Bytes} {paths : List Bytes} (hs : s.Firm)
    (h : s.staleSubtrees rootPath paths = .ok stale) :
    ∃ root, s.lookupPath (canonicalRootPath rootPath) = .ok root ∧ s.Retained root paths
      (stale.foldl (fun self (parent, name, id) => self.detach parent name id) s) := by
  obtain ⟨root, retained, hr, hu, hon, hrt, hcm⟩ := staleSubtrees_spec hs.sound h
  have ha := attached_of_lookupPath hr
  have hap := hs.sound.apart_staleSubtrees h
  have ht := (took_detachAll (.ok ()) stale s hs hap).1
  have htr := fun i => trimmed_detachAll (i := i) stale s hs hap
  generalize stale.foldl _ s = s' at ht htr ⊢
  have hcl : ∀ i, s.Spared retained root i → ∀ e ∈ stale, ¬ s.links.Within e.2.2 i := by
    intro i hi e he hw
    obtain ⟨hst, hb⟩ := hu.each e he
    rcases hi.between hs.sound ha hb hw with heq | hin
    · exact hst.stale (heq ▸ hrt)
    · exact hst.stale hin
  have hln : ∀ p n c, s.Spared retained root p →
      (s'.links p n = some c ↔ s.links p n = some c ∧ c ∈ retained) := by
    intro p n c hp
    rw [(htr p (hcl p hp)).links n]
    constructor
    · intro hl
      split at hl
      · cases hl
      · next hno =>
        refine ⟨hl, Classical.byContradiction fun hc => hno ?_⟩
        exact ⟨(p, n, c), hcm p n c hp hl hc, rfl, rfl⟩
    · rintro ⟨hl, hc⟩
      rw [if_neg, hl]
      rintro ⟨e, he, rfl, rfl⟩
      have hst := (hu.each e he).1
      exact hst.stale (Option.some.inj (hst.link.symm.trans hl) ▸ hc)
  refine ⟨root, hr, fun i => ?_, fun p n c hp => ?_, fun i hi => ?_, fun i hi => ?_, ?_, ?_⟩
  · rw [← hon]
    constructor
    · intro hw
      refine hw.rec_on (P := s.Spared retained root) .root fun p n c _ ih hl => ?_
      obtain ⟨hl, hc⟩ := (hln p n c ih).mp hl
      exact ih.child hl hc
    · intro hsp
      induction hsp with
      | root => exact Links.Within.refl _ _
      | @child p n c hp hl hc ih => exact ih.child ((hln p n c hp).mpr ⟨hl, hc⟩)
  · have hp := (hon p).mpr hp
    rw [hln p n c hp, ← hon]
    refine and_congr_right fun hl => ⟨fun hc => hp.child hl hc, fun hc => ?_⟩
    rcases hc.between hs.sound ha hc.within (Links.Within.refl _ c) with rfl | hin
    · exact hrt
    · exact hin
  · have hsp := (hon i).mpr hi
    refine ⟨(htr i (hcl i hsp)).bare, Option.isSome_iff_exists.mpr ?_⟩
    exact hs.sound.exists_of_attached (ha.trans hsp.within)
  · have ho : ∀ e ∈ stale, ¬ s.links.Within e.2.2 i := fun e he hw =>
      hi ((hu.each e he).2.trans hw)
    refine (htr i ho).same fun e he heq => hi ?_
    exact heq ▸ (hu.each e he).1.parent.within
  · exact ht.references
  · intro i hi
    rw [← ht.references] at hi
    obtain ⟨count, hc⟩ :=
      Option.isSome_iff_exists.mp (ExtTreeMap.isSome_getElem?_iff_mem.mpr hi)
    exact Option.isSome_iff_exists.mpr (ht.firm.sound.referenced i count hc)

/-- `retainSubtreePaths` leaves the state as it is when it fails, and otherwise leaves below its
root exactly the nodes that are on a listed path or on the way to one. -/
theorem retainSubtreePaths_exact (hs : s.Firm) (rootPath : Bytes) (paths : List Bytes) :
    wp (retainSubtreePaths rootPath paths) (fun result s' =>
      match result with
      | .error _ => s' = s
      | .ok _ => ∃ root, s.lookupPath (canonicalRootPath rootPath) = .ok root ∧
          s.Retained root paths s') s := by
  refine wp_ask_bind (fun _ _ => rfl) fun stale hst => ?_
  obtain ⟨root, hr, hrt⟩ := retained_of_staleSubtrees hs hst
  rw [wp_bind, wp_update]
  dsimp only
  rw [wp_bind, wp_update]
  dsimp only
  rw [wp_pure]
  refine ⟨root, hr, ?_⟩
  split
  · exact hrt
  · exact ⟨hrt.below, hrt.links, hrt.nodes, hrt.outside, hrt.references, hrt.held⟩

/-- Of two files of a directory one is retained. -/
theorem retainSubtreePaths_exact_one : ∃ w, fronting.Run
    [.owner (.set (utf8 "a/c") (utf8 "y")), .owner (.set (utf8 "a/b") (utf8 "x"))] w ∧
      ((retainSubtreePaths (utf8 "a") [utf8 "a/b"]).exec w.state).1.toOption = some true ∧
      wp (retainSubtreePaths (utf8 "a") [utf8 "a/b"]) (fun result s' =>
        match result with
        | .error _ => s' = w.state
        | .ok _ => ∃ root, w.state.lookupPath (canonicalRootPath (utf8 "a")) = .ok root ∧
            w.state.Retained root [utf8 "a/b"] s') w.state := by
  have hv : (([.owner (.set (utf8 "a/b") (utf8 "x")), .owner (.set (utf8 "a/c") (utf8 "y"))].foldlM
      World.next World.new).map fun w =>
        ((retainSubtreePaths (utf8 "a") [utf8 "a/b"]).exec w.state).1.toOption) =
      some (some true) := by decide +kernel
  obtain ⟨w, hr, hv⟩ := System.Run.of_view (M := fronting) rfl (fun _ _ _ _ h => h) hv
  exact ⟨w, hr, hv, retainSubtreePaths_exact (World.ordered_of_run hr).firm _ _⟩

end State

end R9P.Front
