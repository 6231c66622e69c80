import R9P.Session.Routing
import R9P.Base.Checked
import R9P.Wire.Directory

/-!
# The namespace client

Library `Session`. `crates/session/src/client/namespace.rs` with `operations.rs` and
`referral_directory.rs` below it: one table of fids over the root connection and the
connections of the referrals. What the direct clients do is a parameter. Durations are left
out: a deadline that passes is one of the outcomes of an operation of the network, so that an
operation and its variant with a deadline have one definition.
-/

namespace R9P.Session
open Base Wire

/-- The direct clients of `direct.rs` and the clock, over the state `ω` of all there is beyond
the namespace client. -/
structure Network (ω : Type) where
  variant : Variant
  rootFid : DirectClient → Fid
  clock : ω → Nat × ω
  /-- `DirectClient::connect_with_tracker_timeout` for a referral, with the credentials and the
  texts of `namespace.rs:607` that lead to it. -/
  connect : NamespaceReferral → ω → Result DirectClient × ω
  referrals : DirectClient → ω → Result (List NamespaceReferral) × ω
  cloneFid : DirectClient → Fid → ω → Result Fid × ω
  walk : DirectClient → Fid → Path → ω → Result Fid × ω
  «open» : DirectClient → Fid → UInt8 → ω → Result Qid × ω
  read : DirectClient → Fid → UInt64 → UInt32 → ω → Result Bytes × ω
  write : DirectClient → Fid → UInt64 → Bytes → ω → Result UInt32 × ω
  clunk : DirectClient → Fid → ω → Result Unit × ω

/-- `namespace.rs:76`. -/
structure RemoteFid where
  client : DirectClient
  fid : Fid
  routeMount : Option Bytes
  deriving DecidableEq, Repr

/-- `namespace.rs:70`. -/
inductive FidTarget where
  | remote (remote : RemoteFid)
  | referralDirectory
  deriving DecidableEq, Repr

/-- `namespace.rs:64`. -/
structure FidBinding where
  namespacePath : Path
  target : FidTarget
  deriving DecidableEq, Repr

/-- `namespace.rs:103`. -/
structure RoutedTarget where
  client : DirectClient
  remotePath : Path
  routeMount : Option Bytes
  deriving DecidableEq, Repr

/-- The state of a namespace client, `namespace.rs:46`, with its fid table, `namespace.rs:98`,
and the world it acts in. -/
structure NamespaceClient (ω : Type) where
  root : DirectClient
  routes : List Route
  next : Fid
  bindings : Fid → Option FidBinding
  world : ω

namespace NamespaceClient

def ROOT_FID : Fid := 1
def FIRST_DYNAMIC_FID : Fid := 2

variable {ω α : Type} (N : Network ω)

/-- An operation of the network. -/
def perform (operation : ω → Result α × ω) : Checked (NamespaceClient ω) Error α :=
  .ofExec fun self => ((operation self.world).1, { self with world := (operation self.world).2 })

/-- `Instant::now`. -/
def now : Checked (NamespaceClient ω) Error Nat :=
  perform fun world => (.ok (N.clock world).1, (N.clock world).2)

/-! ### Fids -/

/-- `namespace.rs:282`. -/
def binding (fid : Fid) : Checked (NamespaceClient ω) Error FidBinding :=
  .ask fun self =>
    match self.bindings fid with
    | some binding => .ok binding
    | none => .error ⟨Errno.EBADF, utf8 s!"unknown namespace fid {fid}"⟩

/-- `routing.rs:167`. -/
def nextFid (fid : Fid) : Fid := if fid = 0xffffffff then FIRST_DYNAMIC_FID else fid + 1

/-- The loop of `namespace.rs:300`, which comes back to its start behind all fids. -/
def allocateLoop (bindings : Fid → Option FidBinding) (start : Fid) : Nat → Fid → Option Fid × Fid
  | 0, next => (none, next)
  | n + 1, candidate =>
    let next := nextFid candidate
    if candidate ≠ NOFID ∧ (bindings candidate).isNone then (some candidate, next)
    else if next = start then (none, next)
    else allocateLoop bindings start n next

/-- `namespace.rs:293`. -/
def allocateBinding (binding : FidBinding) : Checked (NamespaceClient ω) Error Fid :=
  .ofExec fun self =>
    match allocateLoop self.bindings self.next (2 ^ 32) self.next with
    | (some candidate, next) =>
      (.ok candidate, { self with
        next := next
        bindings := Function.update self.bindings candidate (some binding) })
    | (none, next) =>
      (.error ⟨Errno.EMFILE, utf8 "namespace fid space exhausted"⟩, { self with next := next })

/-- `namespace.rs:313`. -/
def removeBinding (fid : Fid) : Checked (NamespaceClient ω) Error Unit := do
  let _ ← binding fid
  .update fun self => { self with bindings := Function.update self.bindings fid none }

/-- `namespace.rs:450`. -/
def discardBinding (fid : Fid) : Checked (NamespaceClient ω) Error Unit :=
  .update fun self => { self with bindings := Function.update self.bindings fid none }

/-! ### Routes -/

/-- `namespace.rs:570`. -/
def refreshRoutes : Checked (NamespaceClient ω) Error Unit := do
  let root ← .ask fun self : NamespaceClient ω => .ok self.root
  let referrals ← perform (N.referrals root)
  let receivedAt ← now N
  let routes ← .ask fun self => buildRoutes referrals self.routes receivedAt
  .update fun self => { self with routes := routes }

/-- The client of a route is held by the route itself, which the table shares. -/
def setClient (mountPath : Bytes) (client : Option DirectClient) (self : NamespaceClient ω) :
    NamespaceClient ω :=
  { self with
    routes := self.routes.map fun route =>
      if route.referral.mountPath = mountPath then { route with client := client } else route }

/-- `namespace.rs:590`. -/
def connectRoute (route : Route) : Checked (NamespaceClient ω) Error DirectClient := do
  match route.client with
  | some client => pure client
  | none =>
    let now ← now N
    .refuseIf (!route.isValid now)
      ⟨Errno.ESTALE, utf8 "namespace referral expired before direct session establishment: " ++
        route.referral.mountPath⟩
    let connected ← perform (N.connect route.referral)
    .update (setClient route.referral.mountPath (some connected))
    pure connected

/-- Whether a route has neither a client nor time left, `namespace.rs:504`. -/
def isStale : Option Route → Checked (NamespaceClient ω) Error Bool
  | none => pure false
  | some route =>
    if route.hasClient then pure false
    else do
      let now ← now N
      pure (!route.isValid now)

/-- The first half of `routed_target`, `namespace.rs:503`: a route is looked up, and again when
the one found had to be refreshed. -/
def selectRoute (find : List Route → Option Route) :
    Checked (NamespaceClient ω) Error (Option Route) := do
  let route ← .ask fun self : NamespaceClient ω => .ok (find self.routes)
  if ← isStale N route then
    refreshRoutes N
    .ask fun self => .ok (find self.routes)
  else pure route

/-- `namespace.rs:501`. -/
def routedTarget (namespacePath : Path) : Checked (NamespaceClient ω) Error RoutedTarget := do
  let path := renderNamespacePath namespacePath
  match ← selectRoute N fun routes => findRoute routes path with
  | none => .ask fun self => .ok ⟨self.root, namespacePath, none⟩
  | some route =>
    let client ← connectRoute N route
    let remotePath ← .ask fun _ => route.remotePath path
    pure ⟨client, remotePath, some route.referral.mountPath⟩

/-- `namespace.rs:460`. -/
def invalidateRouteClient (routeMount : Bytes) (failedClient : DirectClient) :
    Checked (NamespaceClient ω) Error Unit :=
  .update fun self =>
    match self.routes.find? fun route => route.referral.mountPath = routeMount with
    | none => self
    | some route =>
      if route.client = some failedClient then setClient routeMount none self else self

/-- `namespace.rs:409`. -/
def invalidateFailedRoute (target : RoutedTarget) (error : Error) :
    Checked (NamespaceClient ω) Error Unit :=
  match target.routeMount with
  | none => pure ()
  | some routeMount =>
    if !error.isDefinitiveTransportFailure then pure ()
    else invalidateRouteClient routeMount target.client

/-- `namespace.rs:430`. -/
def recoverReadOnlyRoute (failedFid : Fid) (failedClient : DirectClient)
    (routeMount : Option Bytes) (error : Error) : Checked (NamespaceClient ω) Error Bool :=
  match routeMount with
  | none => pure false
  | some routeMount =>
    if !error.isDefinitiveTransportFailure then pure false
    else do
      discardBinding failedFid
      invalidateRouteClient routeMount failedClient
      refreshRoutes N
      pure true

/-! ### Directories above the mounts -/

/-- `referral_directory.rs:51`. -/
def immediateChild (namespacePath : Path) (mountPath : Bytes) : Option Bytes :=
  match parseNamespacePath mountPath with
  | .error _ => none
  | .ok mount =>
    if mount.length ≤ namespacePath.length ||
        !(namespacePath.zip mount).all fun (left, right) => left == right then none
    else mount[namespacePath.length]?

/-- `referral_directory.rs:13`. -/
def isAncestor (namespacePath : Path) (mountPaths : List Bytes) : Bool :=
  mountPaths.any fun mountPath => (immediateChild namespacePath mountPath).isSome

/-- `referral_directory.rs:64`. -/
def referralQid (namespacePath : Path) : Qid :=
  let hash : UInt64 := (renderNamespacePath namespacePath).foldl
    (fun hash byte => (hash ^^^ byte.toUInt64) * 0x00000100000001b3) 0xcbf29ce484222325
  .dir (hash ||| 0x8000000000000000)

/-- `Stat::new`, `stat.rs:22`, for a directory that may be read by everybody. -/
def referralStatOf (name : Bytes) (qid : Qid) : Stat :=
  ⟨0, 0, qid, DMDIR ||| 0o555, 0, 0, 0, name, utf8 "none", utf8 "none", utf8 "none"⟩

/-- `referral_directory.rs:22`. -/
def referralStat (namespacePath : Path) : Stat :=
  referralStatOf (namespacePath.getLast?.getD (utf8 ".")) (referralQid namespacePath)

/-- `referral_directory.rs:30`. The names are in the order of a `BTreeSet`. -/
def readReferralDirectory (namespacePath : Path) (mountPaths : List Bytes) (offset : UInt64)
    (count : UInt32) : Result Bytes :=
  let names := (mountPaths.filterMap (immediateChild namespacePath)).dedup.insertionSort
    fun left right => bytesLe left right = true
  let entries := names.map fun name => referralStatOf name (referralQid (namespacePath ++ [name]))
  (dirreadChunk entries offset count).mapError protocolError

/-- `referral_directory.rs:72`. -/
def readOnlyError : Error := ⟨Errno.EROFS, utf8 "namespace referral directories are read-only"⟩

/-- The mounts of the routes that have a client or time left, `namespace.rs:389`. -/
def usableMounts : List Route → Checked (NamespaceClient ω) Error (List Bytes)
  | [] => pure []
  | route :: routes => do
    let stale ← isStale N (some route)
    let mounts ← usableMounts routes
    pure (if stale then mounts else route.referral.mountPath :: mounts)

/-- `namespace.rs:378`. -/
def isReferralDirectoryMiss (namespacePath : Path) (target : RoutedTarget) (error : Error) :
    Checked (NamespaceClient ω) Error Bool := do
  if error.errno = Errno.ENOENT ∧ target.routeMount.isNone ∧ ¬ namespacePath.isEmpty then
    let routes ← .ask fun self : NamespaceClient ω => .ok self.routes
    let mounts ← usableMounts N routes
    pure (isAncestor namespacePath mounts)
  else pure false

/-- `namespace.rs:393`. -/
def shouldRefreshRoutesAfter (target : RoutedTarget) (error : Error) : Bool :=
  N.variant.supportsReferrals &&
    (if error.errno = Errno.ENOENT then target.routeMount.isNone
    else error.errno == Errno.ESTALE || error.errno == Errno.ENOTCONN ||
      error.errno == Errno.ECONNABORTED || error.errno == Errno.ECONNRESET ||
      error.errno == Errno.EPIPE)

/-! ### Walks -/

/-- `routing.rs:71` and `routing.rs:81`. -/
def walkRemote (target : RoutedTarget) : Checked (NamespaceClient ω) Error Fid :=
  if target.remotePath.isEmpty then perform (N.cloneFid target.client (N.rootFid target.client))
  else perform (N.walk target.client (N.rootFid target.client) target.remotePath)

/-- `namespace.rs:109`. -/
def remoteTarget (target : RoutedTarget) (fid : Fid) : FidTarget :=
  .remote ⟨target.client, fid, target.routeMount⟩

/-- `namespace.rs:324` and `namespace.rs:349`. -/
def walkNamespacePath (namespacePath : Path) : Checked (NamespaceClient ω) Error FidTarget := do
  let target ← routedTarget N namespacePath
  match ← (walkRemote N target).attempt with
  | .ok fid => pure (remoteTarget target fid)
  | .error error =>
    if ← isReferralDirectoryMiss N namespacePath target error then pure .referralDirectory
    else if shouldRefreshRoutesAfter N target error then
      invalidateFailedRoute target error
      refreshRoutes N
      let target ← routedTarget N namespacePath
      match ← (walkRemote N target).attempt with
      | .ok fid => pure (remoteTarget target fid)
      | .error error =>
        if ← isReferralDirectoryMiss N namespacePath target error then pure .referralDirectory
        else throw error
    else throw error

/-- `namespace.rs:254`. -/
def walkTimeout (fid : Fid) (names : Path) : Checked (NamespaceClient ω) Error Fid := do
  let binding ← binding fid
  let namespacePath ← .ask fun _ => applyWalk binding.namespacePath names
  let target ← walkNamespacePath N namespacePath
  allocateBinding ⟨namespacePath, target⟩

/-- `namespace.rs:264` and `namespace.rs:273`. -/
def walkPath (path : Bytes) : Checked (NamespaceClient ω) Error Fid := do
  let namespacePath ← .ask fun _ => parseNamespacePath path
  let target ← walkNamespacePath N namespacePath
  allocateBinding ⟨namespacePath, target⟩

/-! ### Operations on fids -/

/-- `namespace.rs:90`. -/
def writableRemote (binding : FidBinding) : Result RemoteFid :=
  match binding.target with
  | .remote remote => .ok remote
  | .referralDirectory => .error readOnlyError

/-- `operations.rs:4` and `operations.rs:15`. -/
def «open» (fid : Fid) (mode : UInt8) : Checked (NamespaceClient ω) Error Qid := do
  let binding ← binding fid
  match binding.target with
  | .referralDirectory =>
    if mode = Mode.OREAD then pure (referralStat binding.namespacePath).qid else throw readOnlyError
  | .remote remote => perform (N.open remote.client remote.fid mode)

/-- `operations.rs:120` and `operations.rs:85`. -/
def read (fid : Fid) (offset : UInt64) (count : UInt32) :
    Checked (NamespaceClient ω) Error Bytes := do
  let binding ← binding fid
  match binding.target with
  | .referralDirectory =>
    .ask fun self => readReferralDirectory binding.namespacePath
      (self.routes.map (·.referral.mountPath)) offset count
  | .remote remote => perform (N.read remote.client remote.fid offset count)

/-- `operations.rs:209` and `operations.rs:196`. -/
def write (fid : Fid) (offset : UInt64) (data : Bytes) :
    Checked (NamespaceClient ω) Error UInt32 := do
  let binding ← binding fid
  let remote ← .ask fun _ => writableRemote binding
  perform (N.write remote.client remote.fid offset data)

/-- `operations.rs:264` and `operations.rs:253`. -/
def clunk (fid : Fid) : Checked (NamespaceClient ω) Error Unit := do
  .refuseIf (fid = ROOT_FID) ⟨Errno.EBUSY, utf8 "cannot clunk the namespace root"⟩
  let binding ← binding fid
  match binding.target with
  | .remote remote => perform (N.clunk remote.client remote.fid)
  | .referralDirectory => pure ()
  removeBinding fid

end NamespaceClient

end R9P.Session
