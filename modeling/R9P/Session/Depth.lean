import R9P.Multiplex.Walk
import R9P.Session.Bindings
import R9P.Session.Transparency

/-!
# Walks along whole paths

Library `Session`. A namespace client walks a path in one request to the server of its route.
Up to sixteen names that fit the message size this leads to the file that is reached one name
at a time, however the path is given. Beyond, the request is never sent and the walk fails.
-/

namespace R9P.Session
open Base Base.Checked Wire Multiplex

/-- The connections of a namespace client. -/
abbrev Wires (σ : Type) := DirectClient → Connection σ

variable {σ ν α : Type}

/-- An operation of one direct client, with its error as `direct.rs:110` passes it on. -/
def onConnection (client : DirectClient) (operation : Checked (Connection σ) Wire.Error α)
    (world : Wires σ) : Result α × Wires σ :=
  ((operation.exec (world client)).1.mapError clientError,
    Function.update world client (operation.exec (world client)).2)

/-- The direct clients walk as multiplexed clients of tree servers. Their other operations may
be anything. -/
structure OverTrees (S : DirectClient → TreeServer σ ν) (debug : Bytes → Bytes)
    (N : Network (Wires σ)) : Prop where
  walk : ∀ client fid names, N.walk client fid names =
    onConnection client (Connection.walk (S client).respond debug fid names)
  cloneFid : ∀ client fid, N.cloneFid client fid =
    onConnection client (Connection.cloneFid (S client).respond debug fid)

namespace NamespaceClient

/-- A client that can walk to a server: the connection finds a tag, whatever else is in flight,
its root fid is at the root and its next fid is new, and there is a fid left for the result. -/
structure Ready (S : DirectClient → TreeServer σ ν) (N : Network (Wires σ))
    (state : NamespaceClient (Wires σ)) (client : DirectClient) : Prop where
  tag : ∃ tag, (state.world client).protocol.Free tag ∧
    (state.world client).protocol.ahead tag < 65535
  rooted : (S client).fids (state.world client).server (N.rootFid client) = some (S client).root
  fresh : (S client).fids (state.world client).server (state.world client).protocol.nextFid = none
  spare : ∃ fid, state.bindings fid = none ∧ 2 ≤ fid.toNat ∧ fid ≠ NOFID
  next : 2 ≤ state.next.toNat

/-- A fid is bound to a path, and on the server of its target to a file. -/
def BoundTo (S : DirectClient → TreeServer σ ν) (self : NamespaceClient (Wires σ)) (fid : Fid)
    (path : Path) (target : RoutedTarget) (node : ν) : Prop :=
  ∃ remote, self.bindings fid = some ⟨path, remoteTarget target remote⟩ ∧
    (S target.client).fids (self.world target.client).server remote = some node

/-- One request can make the walk to the target of a path: it has at most sixteen names and the
size of a message, and under a mount the path is one that is routed. -/
structure OneRequest (world : Wires σ) (path : Path) (target : RoutedTarget) : Prop where
  plain : target.routeMount = none ∨ ∀ name ∈ path, Plain name
  count : target.remotePath.length ≤ MAXWELEM
  size : walkSize target.remotePath ≤ (world target.client).protocol.msize.toNat

variable {S : DirectClient → TreeServer σ ν} {debug : Bytes → Bytes} {N : Network (Wires σ)}
  {self behind : NamespaceClient (Wires σ)} {path : Path} {target : RoutedTarget} {node : ν}

/-- The names of a target fit a request each. -/
theorem componentTarget_names (hr : Routed self) (hw : ShortReferrals N)
    (he : ∀ name ∈ path, Element name)
    (ht : (componentTarget N path).exec self = (.ok target, behind)) :
    ∀ name ∈ target.remotePath, name.length ≤ 65535 := by
  unfold componentTarget at ht
  rcases hs : (selectRoute N fun routes => longestRoute routes path).exec self with
    ⟨found, selected⟩
  cases found with
  | error error =>
    rw [exec_bind_error hs] at ht
    cases ht
  | ok found =>
    rw [exec_bind_ok hs] at ht
    cases found with
    | none =>
      cases ht
      exact fun name hn => (he name hn).2.2.2
    | some route =>
      obtain ⟨_, _, hsh⟩ := (wp_selectRoute hr hw).of_exec hs route rfl
      dsimp only at ht
      rcases hc : (connectRoute N route).exec selected with ⟨connected, after⟩
      cases connected with
      | error error =>
        rw [exec_bind_error hc] at ht
        cases ht
      | ok client =>
        rw [exec_bind_ok hc] at ht
        cases ht
        intro name hn
        rcases List.mem_append.mp hn with hn | hn
        · exact hsh name hn
        · exact (he name (List.mem_of_mem_drop hn)).2.2.2

/-- The walk to a target is one request with all its names, also when there are none. -/
theorem walkRemote_exec (hN : OverTrees S debug N) (target : RoutedTarget) :
    walkRemote N target = perform (onConnection target.client
      (Connection.walk (S target.client).respond debug (N.rootFid target.client)
        target.remotePath)) := by
  unfold walkRemote
  split
  · next he =>
    rw [hN.cloneFid, List.isEmpty_iff.mp he]
    rfl
  · rw [hN.walk]

/-- What the walk to a target returns, as `attempt` keeps it. -/
theorem attempt_walkRemote (hN : OverTrees S debug N) {result : Wire.Result Fid}
    {connection : Connection σ}
    (hw : (Connection.walk (S target.client).respond debug (N.rootFid target.client)
      target.remotePath).exec (behind.world target.client) = (result, connection)) :
    (walkRemote N target).attempt.exec behind = (.ok (result.mapError clientError),
      { behind with world := Function.update behind.world target.client connection }) := by
  rw [walkRemote_exec hN]
  unfold perform onConnection
  show (_, _) = _
  rw [exec_ofExec, hw]

/-- After an error of input or output no route is looked up again. -/
theorem walkNamespacePath_fails {error : Error} {after : NamespaceClient (Wires σ)}
    (hrt : (routedTarget N path).exec self = (.ok target, behind))
    (hw : (walkRemote N target).attempt.exec behind = (.ok (.error error), after))
    (he : error.errno = Errno.EIO) :
    (walkNamespacePath N path).exec self = (.error error, after) := by
  have hmiss : (isReferralDirectoryMiss N path target error).exec after = (.ok false, after) := by
    unfold isReferralDirectoryMiss
    rw [he, if_neg (fun h => absurd h.1 (by decide))]
    rfl
  have hrefresh : shouldRefreshRoutesAfter N target error = false := by
    unfold shouldRefreshRoutesAfter
    rw [he]
    exact Bool.and_false _
  unfold walkNamespacePath
  rw [exec_bind_ok hrt, exec_bind_ok hw]
  dsimp only
  rw [exec_bind_ok hmiss, hrefresh]
  rfl

/-- What was walked to is bound to a fid of the namespace. -/
theorem bind_reaches (path : Path) {remote : Fid} {world : Wires σ}
    (hrd : Ready S N behind target.client)
    (hrc : (S target.client).fids (world target.client).server remote = some node) :
    ∃ fid after, (allocateBinding ⟨path, remoteTarget target remote⟩).exec
        { behind with world := world } = (.ok fid, after) ∧
      BoundTo S after fid path target node := by
  obtain ⟨spare, hs, hl, hh⟩ := hrd.spare
  obtain ⟨fid, after, he, hb, hw⟩ := allocateBinding_ok
    { behind with world := world } ⟨path, remoteTarget target remote⟩ hs hl hh hrd.next
  refine ⟨fid, after, he, remote, hb, ?_⟩
  rw [hw]
  exact hrc

section

variable (hN : OverTrees S debug N) (hr : Routed self) (hwire : ShortReferrals N)
  (he : ∀ name ∈ path, Element name)
  (ht : (componentTarget N path).exec self = (.ok target, behind))
  (hrd : Ready S N behind target.client)
include hN hr hwire he ht hrd

/-- A path whose names fit one request is walked to its file. -/
theorem walkNamespacePath_reaches (hone : OneRequest behind.world path target)
    (hn : target.remotePath.foldlM (S target.client).child (S target.client).root = some node) :
    ∃ remote world, (walkNamespacePath N path).exec self =
        (.ok (remoteTarget target remote), { behind with world := world }) ∧
      (S target.client).fids (world target.client).server remote = some node := by
  obtain ⟨tag, hf, ha⟩ := hrd.tag
  obtain ⟨connection, hw, hrc⟩ := (S target.client).walk_exec debug hf ha
    hrd.rooted hrd.fresh hone.count (componentTarget_names hr hwire he ht) hone.size hn
  have hrt : (routedTarget N path).exec self = (.ok target, behind) := by
    rw [routedTarget_eq hr hwire he, exec_bind_ok ht, refuseOdd, if_pos hone.plain]
    rfl
  refine ⟨(behind.world target.client).protocol.nextFid,
    Function.update behind.world target.client connection, ?_, ?_⟩
  · unfold walkNamespacePath
    rw [exec_bind_ok hrt, exec_bind_ok (attempt_walkRemote hN hw)]
    rfl
  · rw [Function.update_self]
    exact hrc

/-- A path that does not fit one request is not walked, for its walk is not sent and the error
is none after which routes are looked up again. -/
theorem walkNamespacePath_refused (hone : ¬ OneRequest behind.world path target) :
    ∃ error after, (walkNamespacePath N path).exec self = (.error error, after) := by
  by_cases hp : target.routeMount = none ∨ ∀ name ∈ path, Plain name
  · obtain ⟨tag, hf, ha⟩ := hrd.tag
    have hfit : ¬ (target.remotePath.length ≤ MAXWELEM ∧
        walkSize target.remotePath ≤ (behind.world target.client).protocol.msize.toNat) :=
      fun hfit => hone ⟨hp, hfit.1, hfit.2⟩
    obtain ⟨message, hm, connection, hw⟩ := walk_refused (S target.client).respond debug
      (N.rootFid target.client) hf ha (componentTarget_names hr hwire he ht) hfit
    have hrt : (routedTarget N path).exec self = (.ok target, behind) := by
      rw [routedTarget_eq hr hwire he, exec_bind_ok ht, refuseOdd, if_pos hp]
      rfl
    have hel : (clientError ⟨utf8 "encode 9P frame: " ++ utf8 message⟩).errno = Errno.EIO := by
      simp only [List.mem_cons, List.not_mem_nil, or_false] at hm
      rcases hm with rfl | rfl
      · decide +kernel
      · decide +kernel
    exact ⟨_, _, walkNamespacePath_fails hrt (attempt_walkRemote hN hw) hel⟩
  · have hrt : (routedTarget N path).exec self = (.error notCanonical, behind) := by
      rw [routedTarget_eq hr hwire he, exec_bind_ok ht, refuseOdd, if_neg hp]
      rfl
    exact ⟨notCanonical, behind, exec_bind_error hrt _⟩

/-- The operation that binds what a path is walked to. -/
theorem walk_bind_iff
    (hn : target.remotePath.foldlM (S target.client).child (S target.client).root = some node) :
    (∃ fid after, (walkNamespacePath N path >>= fun target =>
        allocateBinding ⟨path, target⟩).exec self = (.ok fid, after) ∧
          BoundTo S after fid path target node) ↔ OneRequest behind.world path target := by
  constructor
  · rintro ⟨fid, after, hw, _⟩
    by_contra hone
    obtain ⟨error, failed, hf⟩ := walkNamespacePath_refused hN hr hwire he ht hrd hone
    rw [exec_bind_error hf] at hw
    cases hw
  · intro hone
    obtain ⟨remote, world, hw, hrc⟩ := walkNamespacePath_reaches hN hr hwire he ht hrd hone hn
    obtain ⟨fid, after, hbn, hb⟩ := bind_reaches path hrd hrc
    exact ⟨fid, after, (exec_bind_ok hw _).trans hbn, hb⟩

end

/-- A path is walked to the file that its names lead to one at a time, whether it is given as a
text or by names from another fid, exactly if one request can make the walk. -/
theorem walks_reach_file (hN : OverTrees S debug N) (hrouted : Routed self)
    (hwire : ShortReferrals N) (helements : ∀ name ∈ path, Element name)
    (htarget : (componentTarget N path).exec self = (.ok target, behind))
    (hready : Ready S N behind target.client)
    (hnode : target.remotePath.foldlM (S target.client).child (S target.client).root = some node) :
    (∀ text, parseNamespacePath text = .ok path →
      ((∃ fid after, (walkPath N text).exec self = (.ok fid, after) ∧
        BoundTo S after fid path target node) ↔ OneRequest behind.world path target)) ∧
    ∀ start startBinding names, self.bindings start = some startBinding →
      applyWalk startBinding.namespacePath names = .ok path →
      ((∃ fid after, (walkTimeout N start names).exec self = (.ok fid, after) ∧
        BoundTo S after fid path target node) ↔ OneRequest behind.world path target) := by
  have hiff := walk_bind_iff hN hrouted hwire helements htarget hready hnode
  constructor
  · intro text hpr
    have hp : (Checked.ask fun _ : NamespaceClient (Wires σ) => parseNamespacePath text).exec
        self = (.ok path, self) := by
      show (parseNamespacePath text, self) = _
      rw [hpr]
    unfold walkPath
    rw [exec_bind_ok hp]
    exact hiff
  · intro start startBinding names hs hwl
    have hfn : (binding start).exec self = (.ok startBinding, self) := by
      rw [binding, Checked.ask, Checked.exec_ofExec, hs]
    have hp : (Checked.ask fun _ : NamespaceClient (Wires σ) =>
        applyWalk startBinding.namespacePath names).exec self = (.ok path, self) := by
      show (applyWalk startBinding.namespacePath names, self) = _
      rw [hwl]
    unfold walkTimeout
    rw [exec_bind_ok hfn, exec_bind_ok hp]
    exact hiff

/-- A server of a tree where every name leads on, so that every path exists. -/
def everywhere : TreeServer (Fid → Bool) Unit where
  root := ()
  child := fun _ _ => some ()
  fids := fun server fid => if server fid then some () else none
  respond := fun message server =>
    match message with
    | .walk tag _ newfid names =>
      (.walk tag (List.replicate names.length (.dir 0)), Function.update server newfid true)
    | message => (.error message.tag (utf8 "not supported"), server)
  walk_found := by
    intro server tag fid newfid names start node _ _ _ _
    refine ⟨_, _, rfl, List.length_replicate, ?_⟩
    rw [Function.update_self]
    rfl

/-- The network of such servers. -/
def boundless : Network (Wires (Fid → Bool)) :=
  { silent with
    walk := fun client fid names =>
      onConnection client (Connection.walk everywhere.respond id fid names)
    cloneFid := fun client fid =>
      onConnection client (Connection.cloneFid everywhere.respond id fid) }

/-- A client that has just connected to one of them. -/
def attached : NamespaceClient (Wires (Fid → Bool)) where
  root := 0
  routes := []
  next := FIRST_DYNAMIC_FID
  bindings := fun fid => if fid = ROOT_FID then some ⟨[], .remote ⟨0, 1, none⟩⟩ else none
  world := fun _ => ⟨{ Client.new with nextFid := 2 }, fun fid => fid == 1⟩

/-- Sixteen names below the root are walked to. -/
theorem walks_reach_file_sixteen :
    ∃ fid after, (walkPath boundless ((List.replicate 16 (utf8 "/a")).flatten)).exec attached =
        (.ok fid, after) ∧
      BoundTo (fun _ => everywhere) after fid (List.replicate 16 (utf8 "a"))
        ⟨0, List.replicate 16 (utf8 "a"), none⟩ () := by
  have hr : Routed attached :=
    ⟨[], buildRoutes_ok (by rfl : buildRoutes [] [] 0 = .ok []), nofun⟩
  have hrd : Ready (fun _ => everywhere) boundless attached 0 :=
    ⟨⟨0, ⟨by decide, Std.ExtTreeMap.getElem?_empty⟩, by decide⟩, rfl, rfl,
      ⟨2, rfl, by decide, by decide⟩, by decide⟩
  have hN : OverTrees (fun _ => everywhere) id boundless :=
    ⟨fun _ _ _ => rfl, fun _ _ => rfl⟩
  have ht : (componentTarget boundless (List.replicate 16 (utf8 "a"))).exec attached =
      (.ok ⟨0, List.replicate 16 (utf8 "a"), none⟩, attached) := componentTarget_root rfl
  exact ((walks_reach_file hN hr nofun (by decide +kernel) ht hrd rfl).1 _ (by rfl)).mpr
    ⟨.inl rfl, by decide, by decide +kernel⟩

/-- One name more, and the walk is not sent: the number of names decides. -/
theorem seventeen_names_are_not_sent : parseNamespacePath (List.replicate 17 (utf8 "/a")).flatten =
        .ok (List.replicate 17 (utf8 "a")) ∧
      (List.replicate 17 (utf8 "a")).foldlM everywhere.child everywhere.root = some () ∧
      ((walkPath boundless ((List.replicate 17 (utf8 "/a")).flatten)).exec attached).1 =
        .error ⟨Errno.EIO, utf8 "9P client state: encode 9P frame: name too long"⟩ ∧
      ((walkTimeout boundless ROOT_FID (List.replicate 17 (utf8 "a"))).exec attached).1 =
        .error ⟨Errno.EIO, utf8 "9P client state: encode 9P frame: name too long"⟩ := by
  refine ⟨by rfl, rfl, by rfl, by rfl⟩

end NamespaceClient

end R9P.Session
