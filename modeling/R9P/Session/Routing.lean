import R9P.Base.Separated
import R9P.Session.Cache
import R9P.Session.Error
import Mathlib.Data.List.Sort

/-!
# Paths and routes of a namespace

Library `Session`. `crates/session/src/client/namespace/routing.rs` and the routing half of
`crates/core/src/referral.rs`: names are checked and paths parsed, referrals become a sorted
table of routes, and a path is rebased from the mount of its route to the exported root.
-/

namespace R9P.Session
open Base Wire
open List (append_eq_nil_iff append_nil drop_left map_map mem_append mem_append_right not_mem_nil)

/-! ### Paths -/

/-- The separator of path elements. -/
abbrev SLASH : UInt8 := 0x2f

/-- `routing.rs:127`. -/
def validatePathElement (name : Bytes) : Result Unit :=
  if name.isEmpty || name.contains SLASH || name.contains 0 || name.length > 65535 then
    .error ⟨Errno.EINVAL, utf8 "invalid 9P path element"⟩
  else .ok ()

/-- One turn of the loop of `routing.rs:93`. -/
def walkElement (path : Path) (name : Bytes) : Result Path := do
  validatePathElement name
  if name = utf8 "." then pure path
  else if name = utf8 ".." then pure path.dropLast
  else pure (path ++ [name])

/-- `routing.rs:93`. -/
def applyWalk (start names : Path) : Result Path := names.foldlM walkElement start

/-- The closure of `routing.rs:117`. -/
def parseElement (name : Bytes) : Result Bytes := do
  validatePathElement name
  if name = utf8 "." ∨ name = utf8 ".." then
    throw ⟨Errno.EINVAL, utf8 "namespace path must be canonical"⟩
  pure name

/-- `routing.rs:108`. -/
def parseNamespacePath (path : Bytes) : Result Path :=
  if path = utf8 "/" then .ok []
  else
    let path := if (utf8 "/").isPrefixOf path then path.drop 1 else path
    if path.isEmpty || (utf8 "/").isSuffixOf path then
      .error ⟨Errno.EINVAL, utf8 "invalid namespace path"⟩
    else (path.splitOn SLASH).mapM parseElement

/-- `routing.rs:138`. -/
def renderNamespacePath (path : Path) : Bytes :=
  if path.isEmpty then utf8 "/" else separated SLASH path

/-- `routing.rs:150`, and the same function again in `referral.rs:97`. -/
def mountedSuffix (path mountPath : Bytes) : Option Bytes :=
  if path = mountPath then some []
  else if mountPath.isPrefixOf path then
    (some (path.drop mountPath.length)).filter fun suffix => (utf8 "/").isPrefixOf suffix
  else none

/-- `referral.rs:105`. -/
def joinNamespacePath (root suffix : Bytes) : Bytes :=
  if root = utf8 "/" then if suffix.isEmpty then utf8 "/" else suffix
  else if suffix.isEmpty then root
  else root ++ suffix

/-- `referral.rs:52`. -/
def routedPath (self : NamespaceReferral) (namespacePath : Bytes) : Wire.Result Bytes := do
  validateAbsolutePath "namespace_path" namespacePath true
  match mountedSuffix namespacePath self.mountPath with
  | some suffix => pure (joinNamespacePath self.exportedRoot suffix)
  | none =>
    throw ⟨utf8 "namespace path " ++ namespacePath ++ utf8 " is outside referral mount " ++
      self.mountPath⟩

/-! ### Routes -/

/-- A direct client is known by its connection, `direct.rs:23`. -/
abbrev DirectClient := Nat

/-- `namespace.rs:57`. Times are milliseconds of the clock. -/
structure Route where
  referral : NamespaceReferral
  receivedAt : Nat
  client : Option DirectClient
  deriving DecidableEq, Repr

/-- `routing.rs:4`. -/
def Route.hasClient (self : Route) : Bool := self.client.isSome

/-- `routing.rs:11`, when the clock shows `now`. -/
def Route.isValid (self : Route) (now : Nat) : Bool :=
  now - self.receivedAt < self.referral.validForMs.toNat

/-- `routing.rs:188`. -/
def protocolError (error : Wire.Error) : Error := ⟨Errno.EPROTO, error.message⟩

/-- `routing.rs:57`. -/
def sameRouteIdentity (left right : NamespaceReferral) : Bool :=
  left.mountPath == right.mountPath && left.endpoint == right.endpoint &&
    left.uname == right.uname && left.aname == right.aname &&
    left.exportedRoot == right.exportedRoot &&
    left.authorityBoundary == right.authorityBoundary && left.generation == right.generation

/-- One turn of the loop of `routing.rs:22`. -/
def pushRoute (previous : List Route) (receivedAt : Nat) (routes : List Route)
    (referral : NamespaceReferral) : Result (List Route) := do
  match referral.validate with
  | .error error => throw (protocolError error)
  | .ok () => pure ()
  if routes.any fun route => route.referral.mountPath == referral.mountPath then
    throw ⟨Errno.EPROTO, utf8 "duplicate namespace referral mount path " ++ referral.mountPath⟩
  let retained := (previous.find? fun route => sameRouteIdentity route.referral referral).bind
    (·.client)
  pure (routes ++ [⟨referral, receivedAt, retained⟩])

/-- `Ord` for byte strings. -/
def bytesLe : Bytes → Bytes → Bool
  | [], _ => true
  | _ :: _, [] => false
  | a :: left, b :: right => a < b || (a == b && bytesLe left right)

/-- The comparison of `routing.rs:46`: longer mounts first, equally long ones in byte order. -/
def routeOrder (left right : Route) : Prop :=
  right.referral.mountPath.length < left.referral.mountPath.length ∨
    right.referral.mountPath.length = left.referral.mountPath.length ∧
      bytesLe left.referral.mountPath right.referral.mountPath = true

instance : DecidableRel routeOrder := fun left right => by
  unfold routeOrder
  infer_instance

/-- `routing.rs:16`. -/
def buildRoutes (referrals : List NamespaceReferral) (previous : List Route) (receivedAt : Nat) :
    Result (List Route) := do
  let routes ← referrals.foldlM (pushRoute previous receivedAt) []
  pure (routes.insertionSort routeOrder)

/-- `namespace.rs:531`. -/
def findRoute (routes : List Route) (path : Bytes) : Option Route :=
  routes.find? fun route => (mountedSuffix path route.referral.mountPath).isSome

/-- The end of `routed_target`, `namespace.rs:519`: where a path is on the server of a route. -/
def Route.remotePath (self : Route) (path : Bytes) : Result Path :=
  match routedPath self.referral path with
  | .error error => .error (protocolError error)
  | .ok path => parseNamespacePath path

/-! ### What paths are made of -/

/-- What `validatePathElement` accepts. -/
def Element (name : Bytes) : Prop :=
  name ≠ [] ∧ SLASH ∉ name ∧ 0 ∉ name ∧ name.length ≤ 65535

/-- A name that means itself and has only printable bytes. -/
def Plain (name : Bytes) : Prop :=
  name ≠ utf8 "." ∧ name ≠ utf8 ".." ∧ ∀ byte ∈ name, isAsciiControl byte = false

instance (name : Bytes) : Decidable (Element name) := by
  unfold Element
  infer_instance

instance (name : Bytes) : Decidable (Plain name) := by
  unfold Plain
  have := List.decidableBAll (isAsciiControl · = false) name
  infer_instance

/-- The paths that come out of parsing, of walking and of creating a file: those of the fids of
a namespace client. -/
inductive Produced : Path → Prop
  | parsed {text : Bytes} {path : Path} : parseNamespacePath text = .ok path → Produced path
  | walked {start names path : Path} :
    Produced start → applyWalk start names = .ok path → Produced path
  | created {path : Path} {name : Bytes} :
    Produced path → validatePathElement name = .ok () → Produced (path ++ [name])

variable {name : Bytes}

theorem validatePathElement_ok : validatePathElement name = .ok () ↔ Element name := by
  unfold validatePathElement Element
  split
  · next h =>
    simp only [Bool.or_eq_true, List.isEmpty_iff, List.contains_iff_mem, decide_eq_true_eq] at h
    simp only [reduceCtorEq, false_iff, not_and]
    intro hne hsl hz
    rcases h with ((h | h) | h) | h
    · exact absurd h hne
    · exact absurd h hsl
    · exact absurd h hz
    · omega
  · next h =>
    simp only [Bool.or_eq_true, List.isEmpty_iff, List.contains_iff_mem, decide_eq_true_eq,
      not_or] at h
    exact ⟨fun _ => ⟨h.1.1.1, h.1.1.2, h.1.2, by omega⟩, fun _ => rfl⟩

theorem walkElement_ok {path path' : Path} (h : walkElement path name = .ok path') :
    Element name ∧ (path' = path ∨ path' = path.dropLast ∨ path' = path ++ [name]) := by
  obtain ⟨hv, h⟩ := check_ok.mp h
  refine ⟨validatePathElement_ok.mp hv, ?_⟩
  split at h
  · cases h
    exact .inl rfl
  split at h
  · cases h
    exact .inr (.inl rfl)
  · cases h
    exact .inr (.inr rfl)

theorem applyWalk_elements {start names path : Path} (h : applyWalk start names = .ok path)
    (hs : ∀ name ∈ start, Element name) : ∀ name ∈ path, Element name := by
  induction names generalizing start with
  | nil =>
    cases h
    exact hs
  | cons name names ih =>
    obtain ⟨next, hst, hrs⟩ := bind_ok.mp h
    obtain ⟨hn, hc⟩ := walkElement_ok hst
    refine ih hrs ?_
    rcases hc with rfl | rfl | rfl
    · exact hs
    · intro other ho
      exact hs other (List.dropLast_subset start ho)
    · intro other ho
      rcases mem_append.mp ho with ho | ho
      · exact hs other ho
      · rw [List.mem_singleton.mp ho]
        exact hn

theorem parseElement_ok {name' : Bytes} : parseElement name = .ok name' ↔
      name' = name ∧ Element name ∧ name ≠ utf8 "." ∧ name ≠ utf8 ".." := by
  unfold parseElement
  rw [check_ok, validatePathElement_ok]
  split
  · next hdt =>
    constructor
    · rintro ⟨_, h⟩
      cases h
    · rintro ⟨_, _, hdo, hd⟩
      rcases hdt with h | h
      · exact absurd h hdo
      · exact absurd h hd
  · next hdt =>
    rw [not_or] at hdt
    constructor
    · rintro ⟨hn, h⟩
      cases h
      exact ⟨rfl, hn, hdt⟩
    · rintro ⟨rfl, hn, _⟩
      exact ⟨hn, rfl⟩

/-- Elements pass the parser unchanged. -/
theorem mapM_parseElement_ok {names names' : Path} : names.mapM parseElement = .ok names' ↔
      names' = names ∧ ∀ name ∈ names, Element name ∧ name ≠ utf8 "." ∧ name ≠ utf8 ".." := by
  induction names generalizing names' with
  | nil =>
    constructor
    · intro h
      cases h
      exact ⟨rfl, fun name hn => absurd hn not_mem_nil⟩
    · rintro ⟨rfl, _⟩
      rfl
  | cons name names ih =>
    rw [List.mapM_cons, bind_ok]
    constructor
    · rintro ⟨first, hf, h⟩
      obtain ⟨rest, hrs, h⟩ := bind_ok.mp h
      cases h
      obtain ⟨rfl, hn⟩ := parseElement_ok.mp hf
      obtain ⟨rfl, hnm⟩ := ih.mp hrs
      exact ⟨rfl, List.forall_mem_cons.mpr ⟨hn, hnm⟩⟩
    · rintro ⟨rfl, hal⟩
      obtain ⟨hn, hnm⟩ := List.forall_mem_cons.mp hal
      exact ⟨name, parseElement_ok.mpr ⟨rfl, hn⟩,
        bind_ok.mpr ⟨names, ih.mpr ⟨rfl, hnm⟩, rfl⟩⟩

variable {text : Bytes} {path : Path}

theorem parseNamespacePath_elements
    (h : parseNamespacePath text = .ok path) : ∀ name ∈ path, Element name := by
  unfold parseNamespacePath at h
  dsimp only at h
  split at h
  · cases h
    exact fun name hn => absurd hn not_mem_nil
  generalize (if (utf8 "/").isPrefixOf text then text.drop 1 else text) = stripped at h
  split at h
  · cases h
  · obtain ⟨rfl, hnm⟩ := mapM_parseElement_ok.mp h
    exact fun name hn => (hnm name hn).1

/-- Every fid of a namespace client has a path of elements. -/
theorem Produced.elements (h : Produced path) : ∀ name ∈ path, Element name := by
  induction h with
  | parsed h => exact parseNamespacePath_elements h
  | walked _ h ih => exact applyWalk_elements h ih
  | created _ h ih =>
    intro name hn
    rcases mem_append.mp hn with hn | hn
    · exact ih name hn
    · rw [List.mem_singleton.mp hn]
      exact validatePathElement_ok.mp h

/-! ### Rendered paths -/

/-- Names as a path text can hold them: some byte, and no separator. -/
def Named (path : Path) : Prop := ∀ name ∈ path, name ≠ [] ∧ SLASH ∉ name

theorem Named.avoids (h : Named path) : Avoids SLASH path :=
  fun name hn => (h name hn).2

theorem named_of_elements (h : ∀ name ∈ path, Element name) : Named path :=
  fun name hn => ⟨(h name hn).1, (h name hn).2.1⟩

theorem renderNamespacePath_cons (name : Bytes) (path : Path) :
    renderNamespacePath (name :: path) = separated SLASH (name :: path) := rfl

theorem renderNamespacePath_of_ne_nil (h : path ≠ []) :
    renderNamespacePath path = separated SLASH path := by
  cases path with
  | nil => exact absurd rfl h
  | cons name path => rfl

/-- Only the root is written as the separator alone. -/
theorem separated_ne_slash (h : Named path) : separated SLASH path ≠ utf8 "/" := by
  intro heq
  cases path with
  | nil => cases heq
  | cons name path =>
    have he : name ++ separated SLASH path = [] := (List.cons.inj heq).2
    exact (h name List.mem_cons_self).1 (append_eq_nil_iff.mp he).1

theorem renderNamespacePath_injective {a b : Path} (ha : Named a) (hb : Named b)
    (h : renderNamespacePath a = renderNamespacePath b) : a = b := by
  cases a with
  | nil =>
    cases b with
    | nil => rfl
    | cons name b => exact absurd h.symm (separated_ne_slash hb)
  | cons name a =>
    cases b with
    | nil => exact absurd h (separated_ne_slash ha)
    | cons other b => exact separated_injective ha.avoids hb.avoids h

/-- The last byte of a written path is that of its last name. -/
theorem separated_no_trailing (h : Named path) :
    (utf8 "/").isSuffixOf (separated SLASH path) = false := by
  by_contra hs
  rw [Bool.not_eq_false, List.isSuffixOf_iff_suffix] at hs
  obtain ⟨front, hf⟩ := hs
  rcases List.eq_nil_or_concat' path with rfl | ⟨path, name, rfl⟩
  · cases (append_eq_nil_iff.mp hf).2
  · obtain ⟨hne, hfr⟩ := h name (mem_append_right _ (List.mem_singleton_self name))
    obtain ⟨init, last, rfl⟩ := (List.eq_nil_or_concat' name).resolve_left hne
    rw [separated_append] at hf
    have hl : separated SLASH [init ++ [last]] = (SLASH :: init) ++ [last] := by
      simp [separated]
    rw [hl, ← List.append_assoc] at hf
    have hb : SLASH = last := (List.cons.inj (List.append_inj' hf rfl).2).1
    exact hfr (mem_append_right _ (by rw [hb]; exact List.mem_singleton_self last))

theorem isPrefixOf_separated (name : Bytes) (path : Path) :
    (utf8 "/").isPrefixOf (separated SLASH (name :: path)) = true := by
  rw [List.isPrefixOf_iff_prefix]
  exact ⟨_, rfl⟩

/-- Rendering and parsing come back to the path. -/
theorem parseNamespacePath_render
    (h : ∀ name ∈ path, Element name ∧ name ≠ utf8 "." ∧ name ≠ utf8 "..") :
    parseNamespacePath (renderNamespacePath path) = .ok path := by
  have hnm : Named path := named_of_elements fun name hn => (h name hn).1
  cases path with
  | nil => rfl
  | cons name path =>
    have hsp := splitOn_separated hnm.avoids
    have hw : separated SLASH (name :: path) = SLASH :: (name ++ separated SLASH path) := rfl
    have ht : (name ++ separated SLASH path).splitOn SLASH = name :: path := by
      exact (List.cons.inj hsp).2
    unfold parseNamespacePath
    rw [renderNamespacePath_cons, if_neg (separated_ne_slash hnm)]
    rw [if_pos (isPrefixOf_separated name path), hw, List.drop_succ_cons, List.drop_zero,
      if_neg, ht]
    · exact mapM_parseElement_ok.mpr ⟨rfl, h⟩
    · rw [Bool.or_eq_true, not_or]
      constructor
      · rw [List.isEmpty_iff]
        exact fun hnl => (hnm name List.mem_cons_self).1 (append_eq_nil_iff.mp hnl).1
      · intro hs
        have hl := separated_no_trailing hnm
        rw [hw] at hl
        rw [List.isSuffixOf_iff_suffix] at hs
        rw [List.isSuffixOf_iff_suffix.mpr (hs.trans (List.suffix_cons _ _))] at hl
        cases hl

/-- The components of a path text. -/
def components (text : Bytes) : Path := (text.splitOn SLASH).filter (!·.isEmpty)

theorem components_render (h : Named path) :
    components (renderNamespacePath path) = path := by
  have hal : path.filter (!·.isEmpty) = path := by
    rw [List.filter_eq_self]
    intro name hn
    rw [Bool.not_eq_true', List.isEmpty_eq_false_iff]
    exact (h name hn).1
  cases path with
  | nil => rfl
  | cons name path =>
    unfold components
    rw [renderNamespacePath_cons, splitOn_separated h.avoids]
    exact hal

/-- What `validateAbsolutePath` accepts is the writing of its components. -/
theorem validateAbsolutePath_ok {field : String} {allowRoot : Bool}
    (h : validateAbsolutePath field text allowRoot = .ok ()) :
    Named (components text) ∧ (∀ name ∈ components text, Plain name) ∧
      text = renderNamespacePath (components text) ∧
      (allowRoot = false → components text ≠ []) := by
  unfold validateAbsolutePath at h
  dsimp only at h
  by_cases hr : text = utf8 "/"
  · subst hr
    refine ⟨fun name hn => absurd hn not_mem_nil,
      fun name hn => absurd hn not_mem_nil, rfl, ?_⟩
    rintro rfl
    cases h
  · rw [if_neg hr] at h
    split at h
    case isFalse => cases h
    next hv =>
    simp only [Bool.and_eq_true, List.all_eq_true, bne_iff_ne, ne_eq, Bool.not_eq_true',
      List.isEmpty_eq_false_iff, List.any_eq_false, Bool.or_eq_true, not_or] at hv
    obtain ⟨⟨⟨hst, _⟩, hs⟩, hby⟩ := hv
    obtain ⟨tail, rfl⟩ := List.isPrefixOf_iff_prefix.mp hst
    have hsp : (utf8 "/" ++ tail).splitOn SLASH = [] :: tail.splitOn SLASH :=
      splitOn_cons_self tail
    have hd : ((utf8 "/" ++ tail).splitOn SLASH).drop 1 = tail.splitOn SLASH := by
      rw [hsp, List.drop_succ_cons, List.drop_zero]
    have hnm : Named (tail.splitOn SLASH) := fun name hn =>
      ⟨(hs name hn).1.1, avoids_splitOn SLASH tail name hn⟩
    have ht : utf8 "/" ++ tail = renderNamespacePath (tail.splitOn SLASH) := by
      rw [renderNamespacePath_of_ne_nil (List.splitOn_ne_nil _ _)]
      exact separated_of_splitOn hsp
    have hc : components (utf8 "/" ++ tail) = tail.splitOn SLASH := by
      rw [ht, components_render hnm]
    rw [hc]
    refine ⟨hnm, fun name hn => ⟨(hs name hn).1.2, (hs name hn).2, ?_⟩,
      ht, fun _ => List.splitOn_ne_nil _ _⟩
    intro byte hb
    have hmm : byte ∈ utf8 "/" ++ tail := by
      rw [ht, renderNamespacePath_of_ne_nil (List.splitOn_ne_nil _ _)]
      exact List.mem_flatMap.mpr ⟨name, hn, List.mem_cons_of_mem _ hb⟩
    simpa using (hby byte hmm).2

/-- A path of plain names is canonical. -/
theorem validateAbsolutePath_render {field : String} (hnm : Named path)
    (hpl : ∀ name ∈ path, Plain name) (hz : ∀ name ∈ path, 0 ∉ name) :
    validateAbsolutePath field (renderNamespacePath path) true = .ok () := by
  unfold validateAbsolutePath
  dsimp only
  cases path with
  | nil => rfl
  | cons name path =>
    rw [renderNamespacePath_cons, if_neg (separated_ne_slash hnm), if_pos]
    simp only [Bool.and_eq_true, List.all_eq_true, bne_iff_ne, ne_eq, Bool.not_eq_true',
      List.isEmpty_eq_false_iff, List.any_eq_false, Bool.or_eq_true, not_or]
    refine ⟨⟨⟨isPrefixOf_separated name path, separated_no_trailing hnm⟩, ?_⟩, ?_⟩
    · rw [splitOn_separated hnm.avoids]
      intro other ho
      exact ⟨⟨(hnm other ho).1, (hpl other ho).1⟩, (hpl other ho).2.1⟩
    · intro byte hb
      obtain ⟨other, ho, hb⟩ := List.mem_flatMap.mp hb
      rcases List.mem_cons.mp hb with rfl | hb
      · decide
      · refine ⟨fun hn => ?_, ?_⟩
        · rw [beq_iff_eq] at hn
          exact hz other ho (hn ▸ hb)
        · rw [(hpl other ho).2.2 byte hb]
          exact Bool.false_ne_true

/-! ### Mounts -/

theorem isPrefixOf_slash (h : (utf8 "/").isPrefixOf text = true) : Closed SLASH text := by
  obtain ⟨rest, rfl⟩ := List.isPrefixOf_iff_prefix.mp h
  exact .inr rfl

variable {mount rest : Path}

/-- A mount covers the paths that begin with its components, and the suffix is the rest. -/
theorem mountedSuffix_append (hm : mount ≠ []) (hnm : Named rest) :
    mountedSuffix (renderNamespacePath (mount ++ rest)) (renderNamespacePath mount) =
      some (separated SLASH rest) := by
  have hne : mount ++ rest ≠ [] := fun h => hm (append_eq_nil_iff.mp h).1
  rw [renderNamespacePath_of_ne_nil hne, renderNamespacePath_of_ne_nil hm, separated_append]
  unfold mountedSuffix
  cases rest with
  | nil => exact if_pos (append_nil _)
  | cons name rest =>
    rw [if_neg, if_pos, drop_left]
    · exact Option.filter_eq_some_iff.mpr ⟨rfl, isPrefixOf_separated name rest⟩
    · exact List.isPrefixOf_iff_prefix.mpr (List.prefix_append _ _)
    · intro h
      cases List.append_right_eq_self.mp h

theorem mountedSuffix_isSome (hp : Named path) (hnm : Named mount) (hm : mount ≠ []) :
    (mountedSuffix (renderNamespacePath path) (renderNamespacePath mount)).isSome = true ↔
      mount <+: path := by
  constructor
  · intro h
    unfold mountedSuffix at h
    split at h
    · next heq =>
      exact renderNamespacePath_injective hp hnm heq ▸ List.prefix_rfl
    split at h
    · next hb =>
      obtain ⟨rest, hrs⟩ := List.isPrefixOf_iff_prefix.mp hb
      obtain ⟨suffix, hs⟩ := Option.isSome_iff_exists.mp h
      obtain ⟨hd, hsl⟩ := Option.filter_eq_some_iff.mp hs
      rw [← hrs, drop_left] at hd
      cases hd
      have hne : path ≠ [] := by
        rintro rfl
        rw [renderNamespacePath_of_ne_nil hm] at hrs
        obtain ⟨name, mount, rfl⟩ := List.exists_cons_of_ne_nil hm
        have he : name ++ separated SLASH mount ++ rest = [] := (List.cons.inj hrs).2
        exact (hnm name List.mem_cons_self).1
          (append_eq_nil_iff.mp (append_eq_nil_iff.mp he).1).1
      rw [renderNamespacePath_of_ne_nil hm, renderNamespacePath_of_ne_nil hne] at hrs
      obtain ⟨below, rfl, _⟩ := separated_prefix hnm.avoids hp.avoids
        (isPrefixOf_slash hsl) hrs.symm
      exact List.prefix_append _ _
    · cases h
  · rintro ⟨rest, rfl⟩
    rw [mountedSuffix_append hm fun name hn => hp name (mem_append_right _ hn)]
    rfl

theorem joinNamespacePath_render {root : Path} (hr : Named root) :
    joinNamespacePath (renderNamespacePath root) (separated SLASH rest) =
      renderNamespacePath (root ++ rest) := by
  unfold joinNamespacePath
  cases root with
  | nil =>
    cases rest with
    | nil | cons name rest => rfl
  | cons name root =>
    rw [renderNamespacePath_cons, if_neg (separated_ne_slash hr)]
    cases rest with
    | nil => rw [append_nil, renderNamespacePath_cons, if_pos (by rfl)]
    | cons other rest =>
      rw [if_neg (by exact Bool.false_ne_true), ← separated_append]
      rfl

/-! ### The table of routes -/

/-- A referral is mounted over a path. -/
def Mounts (referral : NamespaceReferral) (path : Path) : Prop :=
  components referral.mountPath <+: path

instance (referral : NamespaceReferral) (path : Path) : Decidable (Mounts referral path) := by
  unfold Mounts
  infer_instance

/-- The referral with the longest mount over a path. -/
structure Longest (referrals : List NamespaceReferral) (path : Path)
    (referral : NamespaceReferral) : Prop where
  mem : referral ∈ referrals
  mounts : Mounts referral path
  longest : ∀ other ∈ referrals, Mounts other path →
    components other.mountPath <+: components referral.mountPath

/-- A table of routes for referrals. -/
structure RoutesOf (referrals : List NamespaceReferral) (routes : List Route) : Prop where
  perm : (routes.map (·.referral)).Perm referrals
  valid : ∀ referral ∈ referrals, referral.validate = .ok ()
  distinct : (referrals.map (·.mountPath)).Nodup
  sorted : (routes.map (·.referral)).Pairwise fun left right =>
    right.mountPath.length ≤ left.mountPath.length

variable {previous : List Route} {receivedAt : Nat} {referrals : List NamespaceReferral}
  {routes routes' : List Route}

theorem pushRoute_ok {referral : NamespaceReferral}
    (h : pushRoute previous receivedAt routes referral = .ok routes') :
    referral.validate = .ok () ∧
      referral.mountPath ∉ routes.map (·.referral.mountPath) ∧
      routes'.map (·.referral) = routes.map (·.referral) ++ [referral] := by
  unfold pushRoute at h
  cases hv : referral.validate with
  | error error =>
    rw [hv] at h
    cases h
  | ok u =>
    rw [hv] at h
    dsimp only [bind, Except.bind, pure, Except.pure] at h
    split at h
    · cases h
    · next hnw =>
      cases h
      refine ⟨rfl, ?_, by rw [List.map_append]; rfl⟩
      intro hmm
      obtain ⟨route, hr, heq⟩ := List.mem_map.mp hmm
      exact hnw (List.any_eq_true.mpr ⟨route, hr, beq_iff_eq.mpr heq⟩)

theorem foldlM_pushRoute_ok
    (h : referrals.foldlM (pushRoute previous receivedAt) routes = .ok routes')
    (hd : (routes.map (·.referral.mountPath)).Nodup) :
    (∀ referral ∈ referrals, referral.validate = .ok ()) ∧
      (routes'.map (·.referral.mountPath)).Nodup ∧
      routes'.map (·.referral) = routes.map (·.referral) ++ referrals := by
  induction referrals generalizing routes with
  | nil =>
    cases h
    exact ⟨fun referral hmm => absurd hmm not_mem_nil, hd, (append_nil _).symm⟩
  | cons referral referrals ih =>
    rw [List.foldlM_cons] at h
    obtain ⟨next, hp, hrs⟩ := bind_ok.mp h
    obtain ⟨hv, hnw, hn⟩ := pushRoute_ok hp
    have hm : next.map (·.referral.mountPath) =
        routes.map (·.referral.mountPath) ++ [referral.mountPath] := by
      have := congrArg (List.map NamespaceReferral.mountPath) hn
      rwa [map_map, List.map_append, map_map] at this
    have hnd : (next.map (·.referral.mountPath)).Nodup := by
      rw [hm]
      exact List.nodup_append.mpr ⟨hd, List.pairwise_singleton _ _, fun a ha b hb heq =>
        hnw (List.mem_singleton.mp hb ▸ heq ▸ ha)⟩
    obtain ⟨hal, hd', hr⟩ := ih hrs hnd
    refine ⟨List.forall_mem_cons.mpr ⟨hv, hal⟩, hd', ?_⟩
    rw [hr, hn, List.append_assoc]
    rfl

theorem bytesLe_total (a b : Bytes) : bytesLe a b = true ∨ bytesLe b a = true := by
  induction a generalizing b with
  | nil => exact .inl rfl
  | cons x a ih =>
    cases b with
    | nil => exact .inr rfl
    | cons y b =>
      simp only [bytesLe, Bool.or_eq_true, Bool.and_eq_true, decide_eq_true_eq, beq_iff_eq,
        UInt8.lt_iff_toNat_lt]
      rcases Nat.lt_trichotomy x.toNat y.toNat with h | h | h
      · exact .inl (.inl h)
      · have heq : x = y := UInt8.toNat_inj.mp h
        rcases ih b with hle | hle
        · exact .inl (.inr ⟨heq, hle⟩)
        · exact .inr (.inr ⟨heq.symm, hle⟩)
      · exact .inr (.inl h)

theorem bytesLe_trans {a b c : Bytes} (hab : bytesLe a b = true) (hbc : bytesLe b c = true) :
    bytesLe a c = true := by
  induction a generalizing b c with
  | nil => rfl
  | cons x a ih =>
    cases b with
    | nil => cases hab
    | cons y b =>
      cases c with
      | nil => cases hbc
      | cons z c =>
        simp only [bytesLe, Bool.or_eq_true, Bool.and_eq_true, decide_eq_true_eq, beq_iff_eq,
          UInt8.lt_iff_toNat_lt] at *
        rcases hab with hab | ⟨rfl, hab⟩
        · rcases hbc with hbc | ⟨rfl, _⟩
          · exact .inl (Nat.lt_trans hab hbc)
          · exact .inl hab
        · rcases hbc with hbc | ⟨rfl, hbc⟩
          · exact .inl hbc
          · exact .inr ⟨rfl, ih hab hbc⟩

theorem routeOrder_total (left right : Route) : routeOrder left right ∨ routeOrder right left := by
  rcases Nat.lt_trichotomy left.referral.mountPath.length right.referral.mountPath.length with
    h | h | h
  · exact .inr (.inl h)
  · rcases bytesLe_total left.referral.mountPath right.referral.mountPath with hle | hle
    · exact .inl (.inr ⟨h.symm, hle⟩)
    · exact .inr (.inr ⟨h, hle⟩)
  · exact .inl (.inl h)

theorem routeOrder_trans {a b c : Route} (hab : routeOrder a b) (hbc : routeOrder b c) :
    routeOrder a c := by
  rcases hab with hab | ⟨hab, hle⟩
  · left
    rcases hbc with hbc | ⟨hbc, _⟩ <;> omega
  · rcases hbc with hbc | ⟨hbc, hle'⟩
    · left
      omega
    · exact .inr ⟨hbc.trans hab, bytesLe_trans hle hle'⟩

instance : Std.Total routeOrder := ⟨routeOrder_total⟩

instance : IsTrans Route routeOrder := ⟨fun _ _ _ => routeOrder_trans⟩

/-- What `buildRoutes` makes of referrals is a table of routes for them. -/
theorem buildRoutes_ok {routes : List Route}
    (h : buildRoutes referrals previous receivedAt = .ok routes) :
    RoutesOf referrals routes := by
  obtain ⟨pushed, hp, h⟩ := bind_ok.mp h
  cases h
  obtain ⟨hv, hd, hr⟩ := foldlM_pushRoute_ok hp List.nodup_nil
  have hr : pushed.map (·.referral) = referrals := hr
  refine ⟨?_, hv, ?_, ?_⟩
  · rw [← hr]
    exact (List.perm_insertionSort routeOrder pushed).map _
  · rw [← hr, map_map]
    exact hd
  · rw [List.pairwise_map]
    refine (List.pairwise_insertionSort routeOrder pushed).imp ?_
    rintro left right (hlt | ⟨heq, _⟩)
    · exact Nat.le_of_lt hlt
    · exact Nat.le_of_eq heq

/-! ### Routes of paths -/

section Table

variable {referrals : List NamespaceReferral} {routes : List Route} {path : Path}
  {referral : NamespaceReferral}

theorem validate_mountPath (h : referral.validate = .ok ()) :
    validateAbsolutePath "mount_path" referral.mountPath false = .ok () := by
  exact (check_ok.mp h).1

theorem validate_exportedRoot (h : referral.validate = .ok ()) :
    validateAbsolutePath "exported_root" referral.exportedRoot true = .ok () := by
  exact (check_ok.mp (check_ok.mp h).2).1

/-- Matching bytes is matching components. -/
theorem mountedSuffix_isSome_iff (hv : referral.validate = .ok ()) (hp : Named path) :
    (mountedSuffix (renderNamespacePath path) referral.mountPath).isSome = true ↔
      Mounts referral path := by
  obtain ⟨hnm, _, ht, hr⟩ := validateAbsolutePath_ok (validate_mountPath hv)
  rw [ht]
  unfold Mounts
  exact mountedSuffix_isSome hp hnm (hr rfl)

theorem length_separated_lt (hrs : rest ≠ []) :
    (separated SLASH mount).length < (separated SLASH (mount ++ rest)).length := by
  obtain ⟨name, rest, rfl⟩ := List.exists_cons_of_ne_nil hrs
  rw [separated_append, List.length_append, separated_cons, List.length_cons]
  omega

variable {other : NamespaceReferral}

/-- Among the mounts over a path the one with more bytes has more components. -/
theorem Mounts.prefix_of_length_le (hv : referral.validate = .ok ()) (ho : other.validate = .ok ())
    (hm : Mounts referral path) (hmn : Mounts other path)
    (hl : other.mountPath.length ≤ referral.mountPath.length) :
    components other.mountPath <+: components referral.mountPath := by
  obtain ⟨_, _, ht, hr⟩ := validateAbsolutePath_ok (validate_mountPath hv)
  obtain ⟨_, _, htx, hrt⟩ := validateAbsolutePath_ok (validate_mountPath ho)
  rcases List.prefix_or_prefix_of_prefix hmn hm with h | ⟨rest, hrs⟩
  · exact h
  · by_cases hnl : rest = []
    · rw [hnl, append_nil] at hrs
      exact hrs ▸ List.prefix_rfl
    · rw [ht, htx, renderNamespacePath_of_ne_nil (hr rfl),
        renderNamespacePath_of_ne_nil (hrt rfl), ← hrs] at hl
      exact absurd hl (Nat.not_le_of_gt (length_separated_lt hnl))

section
variable (h : RoutesOf referrals routes)
include h

theorem RoutesOf.mem_iff : referral ∈ referrals ↔ ∃ route ∈ routes, route.referral = referral := by
  rw [← h.perm.mem_iff, List.mem_map]

/-- The root serves the paths that no mount covers. -/
theorem RoutesOf.findRoute_none (hp : Named path) :
    findRoute routes (renderNamespacePath path) = none ↔
      ∀ referral ∈ referrals, ¬ Mounts referral path := by
  unfold findRoute
  rw [List.find?_eq_none]
  constructor
  · intro hn referral hmm hm
    obtain ⟨route, hr, rfl⟩ := h.mem_iff.mp hmm
    exact hn route hr ((mountedSuffix_isSome_iff (h.valid _ hmm) hp).mpr hm)
  · intro hn route hr hsm
    have hmm := h.mem_iff.mpr ⟨route, hr, rfl⟩
    exact hn _ hmm ((mountedSuffix_isSome_iff (h.valid _ hmm) hp).mp hsm)

/-- The first route that matches has the longest mount. -/
theorem RoutesOf.findRoute_some (hp : Named path) {route : Route}
    (hf : findRoute routes (renderNamespacePath path) = some route) :
    route ∈ routes ∧ Longest referrals path route.referral := by
  obtain ⟨hsm, before, after, hsp, hb⟩ := List.find?_eq_some_iff_append.mp hf
  have hr : route ∈ routes := List.mem_of_find?_eq_some hf
  have hmm := h.mem_iff.mpr ⟨route, hr, rfl⟩
  have hm := (mountedSuffix_isSome_iff (h.valid _ hmm) hp).mp hsm
  refine ⟨hr, hmm, hm, ?_⟩
  intro other ho hmn
  obtain ⟨otherRoute, hot, rfl⟩ := h.mem_iff.mp ho
  refine Mounts.prefix_of_length_le (h.valid _ hmm) (h.valid _ ho) hm hmn ?_
  have hs := h.sorted
  rw [List.pairwise_map, hsp] at hs
  rw [hsp] at hot
  -- Routes before the first match do not match, and those behind it have shorter mounts.
  rcases mem_append.mp hot with hin | hin
  · have hms := hb otherRoute hin
    rw [(mountedSuffix_isSome_iff (h.valid _ ho) hp).mpr hmn] at hms
    cases hms
  · rcases List.mem_cons.mp hin with rfl | hin
    · exact Nat.le_refl _
    · exact (List.pairwise_cons.mp (List.pairwise_append.mp hs).2.1).1 otherRoute hin

end

theorem eq_of_mem_of_mountPath (hd : (referrals.map (·.mountPath)).Nodup)
    (hmm : referral ∈ referrals) (ho : other ∈ referrals)
    (h : referral.mountPath = other.mountPath) : referral = other :=
  List.inj_on_of_nodup_map hd hmm ho h

/-- There is one longest mount. -/
theorem Longest.unique (h : RoutesOf referrals routes)
    (hl : Longest referrals path referral) (ho : Longest referrals path other) :
    referral = other := by
  have hc : components referral.mountPath = components other.mountPath :=
    (ho.longest _ hl.mem hl.mounts).eq_of_length_le (hl.longest _ ho.mem ho.mounts).length_le
  obtain ⟨_, _, ht, _⟩ := validateAbsolutePath_ok (validate_mountPath (h.valid _ hl.mem))
  obtain ⟨_, _, htx, _⟩ :=
    validateAbsolutePath_ok (validate_mountPath (h.valid _ ho.mem))
  refine eq_of_mem_of_mountPath h.distinct hl.mem ho.mem ?_
  rw [ht, htx, hc]

/-- Where a path under a mount is on the server of the referral. -/
def rebase (referral : NamespaceReferral) (path : Path) : Path :=
  components referral.exportedRoot ++ path.drop (components referral.mountPath).length

/-- Under one mount different paths are at different places. -/
theorem rebase_injective {a b : Path} (ha : Mounts referral a) (hb : Mounts referral b)
    (h : rebase referral a = rebase referral b) : a = b := by
  obtain ⟨resta, rfl⟩ := ha
  obtain ⟨restb, rfl⟩ := hb
  unfold rebase at h
  rw [drop_left, drop_left] at h
  rw [List.append_cancel_left h]

/-- A path of plain names is rebased from the mount to the exported root. -/
theorem remotePath_eq {route : Route} (hv : route.referral.validate = .ok ())
    (hm : Mounts route.referral path) (he : ∀ name ∈ path, Element name)
    (hpl : ∀ name ∈ path, Plain name)
    (hex : ∀ name ∈ components route.referral.exportedRoot, name.length ≤ 65535) :
    route.remotePath (renderNamespacePath path) = .ok (rebase route.referral path) := by
  obtain ⟨_, _, ht, hr⟩ := validateAbsolutePath_ok (validate_mountPath hv)
  obtain ⟨hnm, hpn, htx, _⟩ :=
    validateAbsolutePath_ok (validate_exportedRoot hv)
  have hp := named_of_elements he
  have hc : validateAbsolutePath "namespace_path" (renderNamespacePath path) true = .ok () :=
    validateAbsolutePath_render hp hpl fun name hn => (he name hn).2.2.1
  obtain ⟨rest, rfl⟩ := hm
  have hb : Named rest := fun name hn => hp name (mem_append_right _ hn)
  have hrt : routedPath route.referral
      (renderNamespacePath (components route.referral.mountPath ++ rest)) =
        .ok (renderNamespacePath (components route.referral.exportedRoot ++ rest)) := by
    have hs := mountedSuffix_append (hr rfl) hb
    rw [← ht] at hs
    unfold routedPath
    rw [hc, hs]
    show Except.ok (joinNamespacePath _ _) = _
    rw [htx, joinNamespacePath_render hnm, components_render hnm]
  unfold Route.remotePath rebase
  rw [hrt, drop_left]
  refine parseNamespacePath_render fun name hn => ?_
  rcases mem_append.mp hn with hn | hn
  · obtain ⟨hdo, hd, hby⟩ := hpn name hn
    refine ⟨⟨(hnm name hn).1, (hnm name hn).2, ?_, hex name hn⟩, hdo, hd⟩
    intro hz
    cases hby 0 hz
  · have hmm := mem_append_right (components route.referral.mountPath) hn
    exact ⟨he name hmm, (hpl name hmm).1, (hpl name hmm).2.1⟩

/-- The refusal of a path that is not canonical. -/
def notCanonical : Error := protocolError
  (.fromStatic "namespace referral namespace_path must be a canonical absolute path")

/-- Only a path of plain names is rebased: the whole path has to be canonical. -/
theorem remotePath_not_plain {route : Route} (he : ∀ name ∈ path, Element name)
    (hp : ¬ ∀ name ∈ path, Plain name) :
    route.remotePath (renderNamespacePath path) = .error notCanonical := by
  have hd : validateAbsolutePath "namespace_path" (renderNamespacePath path) true = .ok () ∨
      validateAbsolutePath "namespace_path" (renderNamespacePath path) true = .error (.fromStatic
        "namespace referral namespace_path must be a canonical absolute path") :=
    ite_eq_or_eq _ _ _
  have hc := hd.resolve_left fun hv => by
    obtain ⟨_, hpl, _, _⟩ := validateAbsolutePath_ok hv
    rw [components_render (named_of_elements he)] at hpl
    exact hp hpl
  unfold Route.remotePath routedPath
  rw [hc]
  rfl

end Table

end R9P.Session
