import R9P.Base.Runs
import R9P.Front.Owner

/-!
# The trees of a front

Library `Front`. `crates/front/src/tree.rs`: any number of `FrontTree`s share the state of one
front. A call of a tree holds the lock on the state in several sections, and the sections of
different trees and of the owner come in any order. One call runs in a tree at a time. The tables
of a tree other than the one of its fids belong to the relays and are not part of this model; an
answer from a queue of the relays comes with the section that takes it.
-/

namespace R9P.Front
open Std Base Wire Server

/-- `tree.rs:57`. -/
structure FidBinding where
  node : Nat
  root : Nat
  sessionId : Nat
  uname : Bytes
  aname : Bytes
  principalId : Bytes
  deriving DecidableEq, Repr

/-- What a section of a call works on: the state of the front and the fids of the tree. -/
structure Locked where
  state : State
  fids : ExtTreeMap Fid FidBinding

namespace Locked

/-- A step on the state of the front. -/
def onState {α : Type} (x : Checked State Error α) : Checked Locked Error α :=
  x.zoom Locked.state fun self state => { self with state := state }

/-- `self.fids.get(&fid)`. -/
def binding (fid : Fid) : Checked Locked Error FidBinding :=
  .ask fun self => okOr self.fids[fid]? EBADFID

/-- `tree.rs:66`. -/
def bindFid (fid : Fid) (binding : FidBinding) : Checked Locked Error Unit := do
  onState (State.retainFidNode binding.node)
  let previous ← .ask fun self => .ok self.fids[fid]?
  .update fun self => { self with fids := self.fids.insert fid binding }
  match previous with
  | some previous => onState (State.releaseFidNode previous.node)
  | none => pure ()

/-- `tree.rs:79`. -/
def unbindFid (fid : Fid) : Checked Locked Error Unit := do
  match ← .ask fun self => .ok self.fids[fid]? with
  | some binding =>
    .update fun self => { self with fids := self.fids.erase fid }
    onState (State.releaseFidNode binding.node)
  | none => pure ()

/-- `tree.rs:154`. -/
def attach (sessionId : Nat) (fid : Fid) (uname aname : Bytes) : Checked Locked Error Qid := do
  let root ← .ask (·.state.attachRootFor uname aname)
  let principalId ← .ask fun self =>
    .ok ((self.state.principalRoots[uname]?.map PrincipalRoot.principalId).getD uname)
  let qid ← .ask (·.state.qidFor root)
  bindFid fid ⟨root, root, sessionId, uname, aname, principalId⟩
  pure qid

/-- What `tree.rs:235` finds out before it asks the owner to create a node. -/
def createTarget (fid : Fid) (qid : Qid) (name : Bytes) : Checked Locked Error FidBinding := do
  let binding ← binding fid
  let found ← .ask (·.state.qidFor binding.node)
  .refuseIf (found.path ≠ qid.path) (.fromStatic EBADFID)
  let node ← .ask (·.state.node binding.node)
  .refuseIf (!node.body.isDir) (.fromStatic ENOTDIR)
  .refuseIf (node.createRelay.isNone && node.body.children.contains name) (.fromStatic EEXIST)
  .refuseIf node.createRelay.isNone (.fromStatic EPERM)
  .refuseIf (!(ByteArray.mk name.toArray).validateUTF8) (.fromStatic "create name is not utf-8")
  let _ ← .ask (·.state.pathRelativeTo binding.node binding.root)
  let _ ← .ask (·.state.pathRelativeTo binding.node ROOT_ID)
  pure binding

/-- The last section of `tree.rs:235`, with the qid path that the owner gave. -/
def created (fid : Fid) (binding : FidBinding) (qidPath : UInt64) : Checked Locked Error Unit := do
  let id ← .ask (·.state.nodeIdForQidPath qidPath)
  bindFid fid { binding with node := id }

/-- What `tree.rs:524` finds out before it asks the owner to remove a node: its path. -/
def removeTarget (fid : Fid) (qid : Qid) : Checked Locked Error Bytes := do
  let binding ← binding fid
  let found ← .ask (·.state.qidFor binding.node)
  .refuseIf (found.path ≠ qid.path) (.fromStatic EBADFID)
  let node ← .ask (·.state.node binding.node)
  .refuseIf node.removeRelay.isNone (.fromStatic EPERM)
  let _ ← .ask (·.state.pathRelativeTo binding.node binding.root)
  .ask (·.state.pathRelativeTo binding.node ROOT_ID)

/-- The last section of `tree.rs:524`, once the owner has agreed. -/
def removed (fid : Fid) (path : Bytes) : Checked Locked Error Unit := do
  onState (State.removeSubtreeIfExists path)
  unbindFid fid

/-- The part of `tree.rs:363` that publishes: a write to an intake. What a write to a relay does
is not part of this state. -/
def write (fid : Fid) (requestId data : Bytes) : Checked Locked Error Unit := do
  let binding ← binding fid
  let _ ← .ask (·.state.pathRelativeTo binding.node binding.root)
  let _ ← .ask (·.state.pathRelativeTo binding.node ROOT_ID)
  let node ← .ask (·.state.node binding.node)
  match node.writeRelay, node.body with
  | _, .rpc _ => pure ()
  | some _, _ => pure ()
  | none, .writeRelay _ => pure ()
  | none, .intakeNew intakeId =>
    let path ← .ask fun self => okOr self.state.intakes[intakeId]? ENOENT
    let _ ← onState (State.place (path ++ SLASH :: requestId ++ utf8 "/request") (.file data))
    let _ ← onState (State.place (path ++ utf8 "/created") (.file requestId))
  | none, _ => throw (.fromStatic EPERM)

/-- `tree.rs:215`: whether a fid may be opened. -/
def openFid (fid : Fid) (qid : Qid) (mode : UInt8) : Checked Locked Error Unit := do
  let binding ← binding fid
  let found ← .ask (·.state.qidFor binding.node)
  .refuseIf (found.path ≠ qid.path) (.fromStatic EBADFID)
  let node ← .ask (·.state.node binding.node)
  .refuseIf (!openAllowed node mode) (.fromStatic EPERM)

/-- `tree.rs:942`. -/
def dropped : Checked Locked Error Unit :=
  .update fun self =>
    { state := self.fids.toList.foldl
        (fun state (_, binding) => ((State.releaseFidNode binding.node).exec state).2) self.state
      fids := ∅ }

end Locked

/-! ### Walks -/

/-- The variables of `tree.rs:179`: where the walk stands and the names it has left. -/
structure Walk where
  newfid : Fid
  binding : FidBinding
  current : Nat
  names : List Bytes
  deriving DecidableEq, Repr

/-- The call that runs in a tree, between two of its sections. -/
inductive Call where
  | idle
  | looking (walk : Walk)
  | resolving (walk : Walk) (name : Bytes)
  | awaiting (walk : Walk) (name : Bytes)
  | entering (walk : Walk) (child : Nat)
  | creating (fid : Fid) (binding : FidBinding)
  | removing (fid : Fid) (path : Bytes)
  deriving DecidableEq, Repr

/-- What the queue of child resolutions holds when a walk looks at it. -/
inductive Reply where
  | pending
  | accepted (metadata : PushedEntryMetadata) (readPrefix : Bytes)
      (removal : ChildDirectoryRemoval)
  | failed
  deriving DecidableEq, Repr

namespace Walk

def DOTDOT : Bytes := utf8 ".."

/-- The first section for a name, `tree.rs:188`. The root of the fid is its own parent. -/
def look (self : Walk) (name : Bytes) (state : State) : Call :=
  match state.nodes[self.current]? with
  | none =>
    if name = DOTDOT ∧ self.current = self.binding.root then .entering self self.current else .idle
  | some node =>
    if name = DOTDOT then
      .entering self (if self.current = self.binding.root then self.current else node.parent)
    else
      match node.body.children[name]? with
      | some child => .entering self child
      | none => .resolving self name

/-- The first section of `tree/child_directory_resolution.rs:8`. -/
def resolve (self : Walk) (name : Bytes) (state : State) : Call :=
  if state.nodeIsDetached self.current then .idle
  else
    match (state.nodes[self.current]?).map Node.body with
    | some (.dir directory) =>
      match directory.children[name]? with
      | some child => .entering self child
      | none => if directory.childResolver.isSome then .awaiting self name else .idle
    | _ => .idle

/-- The loop of `tree/child_directory_resolution.rs:88`, once around. -/
def await (self : Walk) (name : Bytes) (reply : Reply) : Checked State Error Call := do
  let detached ← .ask fun state => .ok (state.nodeIsDetached self.current)
  let body ← .ask fun state => .ok ((state.nodes[self.current]?).map Node.body)
  if detached then pure .idle
  else
    match body with
    | some (.dir directory) =>
      match directory.children[name]?, reply with
      | some child, _ => pure (.entering self child)
      | none, .pending => pure (.awaiting self name)
      | none, .failed => pure .idle
      | none, .accepted metadata readPrefix removal =>
        match ← (State.insertPushedChildDirectory self.current name metadata readPrefix
            removal).attempt with
        | .ok child => pure (.entering self child)
        | .error _ => pure (.awaiting self name)
    | _ => pure .idle

/-- The last section for a name, `tree.rs:208`. -/
def enter (self : Walk) (child : Nat) (state : State) : Call :=
  match state.qidFor child with
  | .ok _ => .looking { self with current := child }
  | .error _ => .idle

end Walk

/-! ### The system -/

/-- A tree and the call that runs in it. -/
structure Session where
  fids : ExtTreeMap Fid FidBinding
  call : Call

/-- A front and its trees. -/
structure World where
  state : State
  sessions : ExtTreeMap Nat Session
  nextSession : Nat

/-- The sections that hold the lock on the state, and the beginnings of calls. -/
inductive Action where
  | owner (op : OwnerOp)
  | tree
  | drop (session : Nat)
  | attach (session : Nat) (fid : Fid) (uname aname : Bytes)
  | walk (session : Nat) (fid newfid : Fid) (names : List Bytes)
  | openFid (session : Nat) (fid : Fid) (qid : Qid) (mode : UInt8)
  | create (session : Nat) (fid : Fid) (qid : Qid) (name : Bytes)
  | write (session : Nat) (fid : Fid) (requestId data : Bytes)
  | clunk (session : Nat) (fid : Fid)
  | remove (session : Nat) (fid : Fid) (qid : Qid)
  | advance (session : Nat) (reply : Reply)
  | answered (session : Nat) (qidPath : Option UInt64)

namespace World

/-- Before anything is published. -/
def new : World := ⟨.new, ∅, 1⟩

/-- A section of the call in a session: what it does to the state and the fids, and how the
call goes on. -/
def holding {α : Type} (self : World) (id : Nat) (session : Session)
    (x : Checked Locked Error α) (after : Result α → Call) : World :=
  let outcome := x.exec ⟨self.state, session.fids⟩
  { self with
    state := outcome.2.state
    sessions := self.sessions.insert id ⟨outcome.2.fids, after outcome.1⟩ }

/-- The next section of the call in a session. -/
def advanced (self : World) (id : Nat) (session : Session) (reply : Reply) : Option World :=
  let goesOn (call : Call) : World :=
    { self with sessions := self.sessions.insert id { session with call := call } }
  match session.call with
  | .looking walk =>
    match walk.names with
    | [] => some (self.holding id session
        (Locked.bindFid walk.newfid { walk.binding with node := walk.current }) fun _ => .idle)
    | name :: names => some (goesOn ({ walk with names := names }.look name self.state))
  | .resolving walk name => some (goesOn (walk.resolve name self.state))
  | .awaiting walk name => some (self.holding id session
      (Locked.onState (walk.await name reply)) fun result => result.toOption.getD .idle)
  | .entering walk child => some (goesOn (walk.enter child self.state))
  | _ => none

/-- An owner has answered the call in a session, or the time is up. -/
def answered (self : World) (id : Nat) (session : Session) (qidPath : Option UInt64) :
    Option World :=
  match session.call, qidPath with
  | .creating fid binding, some qidPath =>
    some (self.holding id session (Locked.created fid binding qidPath) fun _ => .idle)
  | .removing fid path, some _ =>
    some (self.holding id session (Locked.removed fid path) fun _ => .idle)
  | .creating _ _, none | .removing _ _, none =>
    some { self with sessions := self.sessions.insert id { session with call := .idle } }
  | _, _ => none

/-- A call begins, if no other runs. -/
def begun (self : World) (id : Nat) (f : Session → Option World) : Option World :=
  match self.sessions[id]? with
  | some session => if session.call = .idle then f session else none
  | none => none

/-- What one action does; `none` if it cannot happen. -/
def next (self : World) : Action → Option World
  | .owner op => some { self with state := (op.run.exec self.state).2 }
  | .tree => some
    { self with
      sessions := self.sessions.insert self.nextSession ⟨∅, .idle⟩
      nextSession := self.nextSession + 1 }
  | .drop id => self.begun id fun session =>
    let closed := self.holding id session Locked.dropped fun _ => .idle
    some { closed with sessions := closed.sessions.erase id }
  | .attach id fid uname aname => self.begun id fun session =>
    some (self.holding id session (Locked.attach id fid uname aname) fun _ => .idle)
  | .walk id fid newfid names => self.begun id fun session =>
    match session.fids[fid]? with
    | some binding => some
      { self with
        sessions := self.sessions.insert id
          { session with call := .looking ⟨newfid, binding, binding.node, names⟩ } }
    | none => some self
  | .openFid id fid qid mode => self.begun id fun session =>
    some (self.holding id session (Locked.openFid fid qid mode) fun _ => .idle)
  | .create id fid qid name => self.begun id fun session =>
    some (self.holding id session (Locked.createTarget fid qid name) fun
      | .ok binding => .creating fid binding
      | .error _ => .idle)
  | .write id fid requestId data => self.begun id fun session =>
    some (self.holding id session (Locked.write fid requestId data) fun _ => .idle)
  | .clunk id fid => self.begun id fun session =>
    some (self.holding id session (Locked.unbindFid fid) fun _ => .idle)
  | .remove id fid qid => self.begun id fun session =>
    some (self.holding id session (Locked.removeTarget fid qid) fun
      | .ok path => .removing fid path
      | .error _ => .idle)
  | .advance id reply => do
    let session ← self.sessions[id]?
    self.advanced id session reply
  | .answered id qidPath => do
    let session ← self.sessions[id]?
    self.answered id session qidPath

end World

/-- The runs of a front with its owner and its trees. -/
def fronting : System World Action where
  initial w := w = .new
  step w action w' := w.next action = some w'

end R9P.Front
