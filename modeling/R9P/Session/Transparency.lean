import R9P.Session.Namespace

/-!
# Transparent routing

Library `Session`. Routing compares and cuts bytes. What it is for is said with components: the
longest mount over a path serves it, at the components of the exported root followed by those
below the mount. The two agree except where a mount serves a path whose names are not plain.
-/

namespace R9P.Session
open Base Base.Checked Wire

variable {ω : Type} {referrals : List NamespaceReferral} {routes : List Route} {path : Path}
  {route : Route}

/-- The route with the longest mount over a path. -/
def longestRoute (routes : List Route) (path : Path) : Option Route :=
  routes.find? fun route => Mounts route.referral path ∧ ∀ other ∈ routes,
    Mounts other.referral path →
      components other.referral.mountPath <+: components route.referral.mountPath

/-- The names of the exported root fit a path element. On the wire they do, where the whole
root has at most 65535 bytes. -/
def Short (referral : NamespaceReferral) : Prop :=
  ∀ name ∈ components referral.exportedRoot, name.length ≤ 65535

instance (referral : NamespaceReferral) : Decidable (Short referral) := by
  unfold Short
  infer_instance

/-! ### The table in terms of components -/

section

variable (h : RoutesOf referrals routes)
include h

theorem RoutesOf.longest_iff (hr : route ∈ routes) :
    (Mounts route.referral path ∧ ∀ other ∈ routes, Mounts other.referral path →
        components other.referral.mountPath <+: components route.referral.mountPath) ↔
      Longest referrals path route.referral := by
  constructor
  · rintro ⟨hm, hl⟩
    refine ⟨h.mem_iff.mpr ⟨route, hr, rfl⟩, hm, fun other ho hmn => ?_⟩
    obtain ⟨otherRoute, hot, rfl⟩ := h.mem_iff.mp ho
    exact hl otherRoute hot hmn
  · intro hl
    exact ⟨hl.mounts, fun other ho hm =>
      hl.longest _ (h.mem_iff.mpr ⟨other, ho, rfl⟩) hm⟩

/-- A referral has one route. -/
theorem RoutesOf.route_unique {left right : Route}
    (hl : left ∈ routes) (hr : right ∈ routes) (heq : left.referral = right.referral) :
    left = right := by
  have hn : (routes.map (·.referral)).Nodup :=
    h.perm.nodup_iff.mpr (.of_map _ h.distinct)
  exact List.inj_on_of_nodup_map hn hl hr heq

theorem RoutesOf.longestRoute_some : longestRoute routes path = some route ↔
      route ∈ routes ∧ Longest referrals path route.referral := by
  unfold longestRoute
  constructor
  · intro hf
    have hr := List.mem_of_find?_eq_some hf
    have hl := List.find?_some hf
    exact ⟨hr, (h.longest_iff hr).mp (of_decide_eq_true hl)⟩
  · rintro ⟨hr, hl⟩
    cases hf : routes.find? _ with
    | none =>
      have hn := List.find?_eq_none.mp hf route hr
      exact absurd (decide_eq_true ((h.longest_iff hr).mpr hl)) hn
    | some found =>
      have hm := List.mem_of_find?_eq_some hf
      have hs := List.find?_some hf
      have hfn := (h.longest_iff hm).mp (of_decide_eq_true hs)
      rw [h.route_unique hm hr (hfn.unique h hl)]

/-- Comparing bytes finds the longest mount. -/
theorem RoutesOf.findRoute_eq (hp : Named path) :
    findRoute routes (renderNamespacePath path) = longestRoute routes path := by
  cases hf : findRoute routes (renderNamespacePath path) with
  | none =>
    have hn := (h.findRoute_none hp).mp hf
    symm
    refine List.find?_eq_none.mpr fun route hr hl => ?_
    exact hn _ (h.mem_iff.mpr ⟨route, hr, rfl⟩) (of_decide_eq_true hl).1
  | some route =>
    exact (h.longestRoute_some.mpr (h.findRoute_some hp hf)).symm

theorem RoutesOf.longestRoute_none (hp : Named path) :
    longestRoute routes path = none ↔ ∀ referral ∈ referrals, ¬ Mounts referral path := by
  rw [← h.findRoute_eq hp, h.findRoute_none hp]

/-- The order of the table and of its referrals is all that a table depends on. -/
theorem RoutesOf.congr {other : List Route}
    (heq : other.map (·.referral) = routes.map (·.referral)) : RoutesOf referrals other := by
  refine ⟨?_, h.valid, h.distinct, ?_⟩
  · rw [heq]
    exact h.perm
  · rw [heq]
    exact h.sorted

end

namespace NamespaceClient

/-- What `routedTarget` is for, in terms of components. -/
def componentTarget (N : Network ω) (path : Path) :
    Checked (NamespaceClient ω) Error RoutedTarget := do
  match ← selectRoute N fun routes => longestRoute routes path with
  | none => .ask fun self => .ok ⟨self.root, path, none⟩
  | some route =>
    let client ← connectRoute N route
    pure ⟨client, rebase route.referral path, some route.referral.mountPath⟩

variable {N : Network ω} {self : NamespaceClient ω}

/-- A clock that is read or not, the table stays. -/
theorem wp_isStale {Q : Except Error Bool → NamespaceClient ω → Prop} (route : Option Route)
    (h : ∀ stale world, Q (.ok stale) { self with world := world }) :
    (isStale N route).wp Q self := by
  cases route with
  | none => exact h false self.world
  | some route =>
    unfold isStale
    rw [wp_ite]
    refine ⟨fun _ => h false self.world, fun _ => ?_⟩
    exact h _ _

/-- A table of referrals that can all be rebased to. -/
def Routed (self : NamespaceClient ω) : Prop :=
  ∃ referrals, RoutesOf referrals self.routes ∧ ∀ referral ∈ referrals, Short referral

/-- Every list of referrals that the root gives can be rebased to. -/
def ShortReferrals (N : Network ω) : Prop :=
  ∀ client world given, (N.referrals client world).1 = .ok given →
    ∀ referral ∈ given, Short referral

theorem Routed.findRoute_eq (h : Routed self) (hp : Named path) :
    findRoute self.routes (renderNamespacePath path) = longestRoute self.routes path := by
  obtain ⟨referrals, ht, _⟩ := h
  exact ht.findRoute_eq hp

/-- A route that was found leads to its referral. -/
theorem Routed.longestRoute_some (h : Routed self)
    (hr : longestRoute self.routes path = some route) :
    route.referral.validate = .ok () ∧ Mounts route.referral path ∧ Short route.referral := by
  obtain ⟨referrals, ht, hsh⟩ := h
  obtain ⟨_, hl⟩ := ht.longestRoute_some.mp hr
  exact ⟨ht.valid _ hl.mem, hl.mounts, hsh _ hl.mem⟩

/-! ### Selecting a route -/

/-- Referrals that the root gives again make a table again. -/
theorem wp_refreshRoutes (hw : ShortReferrals N) :
    (refreshRoutes N).wp (fun result after => result = .ok () → Routed after) self := by
  unfold refreshRoutes
  rw [wp_bind, wp_ask]
  dsimp only
  rw [wp_bind]
  unfold perform
  rw [wp_ofExec]
  cases hg : (N.referrals self.root self.world).1 with
  | error e => exact nofun
  | ok given =>
    dsimp only
    rw [wp_bind]
    unfold now perform
    rw [wp_ofExec]
    refine wp_ask_bind (fun e _ => nofun) fun routes hb => ?_
    exact fun _ => ⟨given, buildRoutes_ok hb, hw _ _ _ hg⟩

/-- A selection by bytes is one by components, before and behind a refresh. -/
theorem selectRoute_eq (hp : Named path) (hrt : Routed self) (hw : ShortReferrals N) :
    (selectRoute N fun routes => findRoute routes (renderNamespacePath path)).exec self =
      (selectRoute N fun routes => longestRoute routes path).exec self := by
  show Checked.exec (isStale N (findRoute self.routes _) >>= _) self =
    Checked.exec (isStale N (longestRoute self.routes path) >>= _) self
  rw [hrt.findRoute_eq hp]
  refine exec_bind_congr fun stale behind _ => ?_
  cases stale with
  | false =>
    show (Except.ok (findRoute self.routes _), behind) =
      (.ok (longestRoute self.routes path), behind)
    rw [hrt.findRoute_eq hp]
  | true =>
    refine exec_bind_congr fun _ after hr => ?_
    have ha := (wp_refreshRoutes hw).of_exec hr rfl
    show (Except.ok (findRoute after.routes _), after) =
      (.ok (longestRoute after.routes path), after)
    rw [ha.findRoute_eq hp]

theorem wp_selectRoute (hrt : Routed self) (hw : ShortReferrals N) :
    (selectRoute N fun routes => longestRoute routes path).wp (fun result _ =>
      ∀ route, result = .ok (some route) → route.referral.validate = .ok () ∧
        Mounts route.referral path ∧ Short route.referral) self := by
  refine wp_ask_bind nofun fun found hf => ?_
  cases hf
  rw [wp_bind]
  refine wp_isStale _ fun stale world => ?_
  dsimp only
  rw [wp_ite]
  refine ⟨fun _ => ?_, fun _ route hr => hrt.longestRoute_some (Except.ok.inj hr)⟩
  rw [wp_bind]
  refine (wp_refreshRoutes hw).mono fun result after ha => ?_
  cases result with
  | error e => exact nofun
  | ok _ => exact fun route hr => (ha rfl).longestRoute_some (Except.ok.inj hr)

/-- Under a mount a path of names that are not plain is refused, `referral.rs:52`. -/
def refuseOdd (path : Path) (target : RoutedTarget) :
    Checked (NamespaceClient ω) Error RoutedTarget :=
  if target.routeMount = none ∨ ∀ name ∈ path, Plain name then pure target
  else throw notCanonical

/-- Routing by bytes is routing by components, and then the refusal of names under a mount. -/
theorem routedTarget_eq (hrt : Routed self) (hw : ShortReferrals N)
    (he : ∀ name ∈ path, Element name) :
    (routedTarget N path).exec self = (componentTarget N path >>= refuseOdd path).exec self := by
  unfold routedTarget componentTarget
  rw [bind_assoc, exec_bind, exec_bind, selectRoute_eq (named_of_elements he) hrt hw,
    ← exec_bind, ← exec_bind]
  refine exec_bind_congr fun found behind hs => ?_
  cases found with
  | none => rfl
  | some route =>
    obtain ⟨hv, hm, hsh⟩ := (wp_selectRoute hrt hw).of_exec hs route rfl
    dsimp only
    rw [bind_assoc]
    refine exec_bind_congr fun client after _ => ?_
    rw [pure_bind]
    unfold refuseOdd
    by_cases hp : ∀ name ∈ path, Plain name
    · rw [remotePath_eq hv hm he hp hsh, if_pos (.inr hp)]
      rfl
    · rw [remotePath_not_plain he hp, if_neg]
      · rfl
      · rintro (hn | hn)
        · exact Option.some_ne_none _ hn
        · exact hp hn

/-- The two agree if the names are plain where a mount serves the path, and only then. -/
theorem routedTarget_eq_iff (hrt : Routed self) (hw : ShortReferrals N)
    (he : ∀ name ∈ path, Element name) :
    (routedTarget N path).exec self = (componentTarget N path).exec self ↔
      ∀ target, ((componentTarget N path).exec self).1 = .ok target →
        target.routeMount ≠ none → ∀ name ∈ path, Plain name := by
  rw [routedTarget_eq hrt hw he]
  rcases hc : (componentTarget N path).exec self with ⟨result, after⟩
  cases result with
  | error error =>
    rw [exec_bind_error hc]
    exact ⟨fun _ target ht => (by cases ht), fun _ => rfl⟩
  | ok target =>
    rw [exec_bind_ok hc]
    unfold refuseOdd
    constructor
    · intro heq other ho hm
      cases ho
      by_contra hp
      rw [if_neg (not_or.mpr ⟨hm, hp⟩)] at heq
      cases heq
    · intro hp
      rw [if_pos]
      · rfl
      · by_cases hm : target.routeMount = none
        · exact .inl hm
        · exact .inr (hp target rfl hm)

/-- With a client in place a route is taken at once. -/
theorem selectRoute_connected {find : List Route → Option Route}
    (h : ∀ route, find self.routes = some route → route.hasClient = true) :
    (selectRoute N find).exec self = (.ok (find self.routes), self) := by
  have hfr : (isStale N (find self.routes)).exec self = (.ok false, self) := by
    cases hf : find self.routes with
    | none => rfl
    | some route =>
      unfold isStale
      dsimp only
      rw [if_pos (h route hf)]
      rfl
  show Checked.exec (isStale N (find self.routes) >>= _) self = _
  rw [exec_bind, hfr]
  rfl

theorem componentTarget_root (h : longestRoute self.routes path = none) :
    (componentTarget N path).exec self = (.ok ⟨self.root, path, none⟩, self) := by
  have hs : (selectRoute N fun routes => longestRoute routes path).exec self =
      (.ok none, self) := by
    rw [selectRoute_connected, h]
    intro route hr
    exact absurd (h.symm.trans hr) nofun
  unfold componentTarget
  rw [exec_bind, hs]
  rfl

theorem componentTarget_connected {client : DirectClient}
    (h : longestRoute self.routes path = some route) (hc : route.client = some client) :
    (componentTarget N path).exec self =
      (.ok ⟨client, rebase route.referral path, some route.referral.mountPath⟩, self) := by
  have hcn : (connectRoute N route).exec self = (.ok client, self) := by
    unfold connectRoute
    rw [hc]
    rfl
  have hs : (selectRoute N fun routes => longestRoute routes path).exec self =
      (.ok (some route), self) := by
    rw [selectRoute_connected, h]
    intro found hf
    cases h.symm.trans hf
    unfold Route.hasClient
    rw [hc]
    rfl
  unfold componentTarget
  rw [exec_bind, hs]
  dsimp only
  rw [exec_bind, hcn]
  rfl

/-- Referrals in any order route a path by the longest mount, and to the root exactly when there
is none. Routing is that of components, at those of the exported root and those below the mount,
exactly if the names are plain where a mount serves the path. A target then fails only as its
connection does, and under one mount different paths have different targets. -/
theorem routedTarget_transparent (N : Network ω) (self : NamespaceClient ω)
    {referrals : List NamespaceReferral} {previous built : List Route} {receivedAt : Nat}
    {path : Path} (hbuilt : buildRoutes referrals previous receivedAt = .ok built)
    (htable : self.routes.map (·.referral) = built.map (·.referral))
    (hshort : ∀ referral ∈ referrals, Short referral) (hwire : ShortReferrals N)
    (hpath : Produced path) :
    (longestRoute self.routes path = none ↔ ∀ referral ∈ referrals, ¬ Mounts referral path) ∧
      (∀ route, longestRoute self.routes path = some route ↔
        route ∈ self.routes ∧ Longest referrals path route.referral) ∧
      ((routedTarget N path).exec self = (componentTarget N path).exec self ↔
        ∀ target, ((componentTarget N path).exec self).1 = .ok target →
          target.routeMount ≠ none → ∀ name ∈ path, Plain name) ∧
      (longestRoute self.routes path = none →
        (routedTarget N path).exec self = (.ok ⟨self.root, path, none⟩, self)) ∧
      (∀ route client, longestRoute self.routes path = some route → route.client = some client →
        ((routedTarget N path).exec self =
            (.ok ⟨client, rebase route.referral path, some route.referral.mountPath⟩, self) ↔
          ∀ name ∈ path, Plain name)) ∧
      ∀ referral ∈ referrals, ∀ other, Mounts referral path → Mounts referral other →
        rebase referral path = rebase referral other → path = other := by
  have hr := (buildRoutes_ok hbuilt).congr htable
  have he := hpath.elements
  have hiff := routedTarget_eq_iff ⟨referrals, hr, hshort⟩ hwire he
  refine ⟨hr.longestRoute_none (named_of_elements he),
    fun route => hr.longestRoute_some, hiff, ?_, ?_, ?_⟩
  · intro hn
    have hct := componentTarget_root (N := N) hn
    rw [hct] at hiff
    refine hiff.mpr fun target ht hm => ?_
    cases ht
    exact absurd rfl hm
  · intro route client hs hc
    have hct := componentTarget_connected (N := N) hs hc
    rw [hct] at hiff
    rw [hiff]
    refine ⟨fun hp => hp _ rfl (Option.some_ne_none _), fun hp target _ _ => hp⟩
  · exact fun referral _ other hm ho heq => rebase_injective hm ho heq

/-- A network on which nobody answers. -/
def silent : Network ω where
  variant := .r
  rootFid := fun _ => 1
  clock := fun world => (0, world)
  connect := fun _ world => (.error ⟨Errno.EIO, []⟩, world)
  referrals := fun _ world => (.error ⟨Errno.EIO, []⟩, world)
  cloneFid := fun _ _ world => (.error ⟨Errno.EIO, []⟩, world)
  walk := fun _ _ _ world => (.error ⟨Errno.EIO, []⟩, world)
  «open» := fun _ _ _ world => (.error ⟨Errno.EIO, []⟩, world)
  read := fun _ _ _ _ world => (.error ⟨Errno.EIO, []⟩, world)
  write := fun _ _ _ _ world => (.error ⟨Errno.EIO, []⟩, world)
  clunk := fun _ _ world => (.error ⟨Errno.EIO, []⟩, world)

/-- A referral from a mount to an exported root. -/
def referralTo (mountPath exportedRoot : String) : NamespaceReferral :=
  ⟨utf8 mountPath, utf8 "host:564", utf8 "user", utf8 "/", utf8 exportedRoot, utf8 "none", 1, 1000⟩

/-- A client of two nested mounts that is connected to both. -/
def nested : NamespaceClient Unit where
  root := 0
  routes := [⟨referralTo "/m/n" "/x", 0, some 2⟩, ⟨referralTo "/m" "/", 0, some 1⟩]
  next := 2
  bindings := fun _ => none
  world := ()

/-- The inner of two mounts serves a path below both. -/
theorem routedTarget_transparent_nested :
    parseNamespacePath (utf8 "/m/n/a") = .ok [utf8 "m", utf8 "n", utf8 "a"] ∧
      (routedTarget silent [utf8 "m", utf8 "n", utf8 "a"]).exec nested =
        (.ok ⟨2, [utf8 "x", utf8 "a"], some (utf8 "/m/n")⟩, nested) := by
  have hp : parseNamespacePath (utf8 "/m/n/a") = .ok [utf8 "m", utf8 "n", utf8 "a"] := by
    rfl
  have hb : buildRoutes [referralTo "/m" "/", referralTo "/m/n" "/x"] nested.routes 0 =
      .ok nested.routes := by rfl
  have hsh : ∀ referral ∈ [referralTo "/m" "/", referralTo "/m/n" "/x"], Short referral := by
    decide +kernel
  refine ⟨hp, ?_⟩
  exact ((routedTarget_transparent silent nested hb rfl hsh nofun (.parsed hp)).2.2.2.2.1
    ⟨referralTo "/m/n" "/x", 0, some 2⟩ 2 (by decide +kernel) rfl).mpr (by decide +kernel)

/-- A tab is a byte of a path element but not of a path that is routed: under the mount `/m` the
path `/m/a<tab>b` is refused. -/
theorem routedTarget_refuses_control_byte :
    parseNamespacePath (utf8 "/m/a\tb") = .ok [utf8 "m", utf8 "a\tb"] ∧
      buildRoutes [referralTo "/m" "/", referralTo "/m/n" "/x"] nested.routes 0 =
        .ok nested.routes ∧
      Longest [referralTo "/m" "/", referralTo "/m/n" "/x"] [utf8 "m", utf8 "a\tb"]
        (referralTo "/m" "/") ∧
      ((routedTarget silent [utf8 "m", utf8 "a\tb"]).exec nested).1 = .error ⟨Errno.EPROTO,
          utf8 "namespace referral namespace_path must be a canonical absolute path"⟩ := by
  refine ⟨rfl, rfl, ⟨by decide, by decide +kernel, by decide +kernel⟩, rfl⟩

end NamespaceClient

end R9P.Session
