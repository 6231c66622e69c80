import R9P.Session.Transparency

/-!
# Resuming after a dead transport

Library `Session`. `ResumableFid` of `crates/session/src/resumable_fid.rs` repeats a read or a
write on a fresh attachment as long as its error is taken for a dead transport. Which errors
are is found in their texts, so that an answer of the server or a refusal to send can be
among them.
-/

namespace R9P.Session
open Base Base.Checked Wire

/-- `resumable_fid.rs:14` with its binding, `resumable_fid.rs:23`. -/
structure ResumableFid (ω : Type) where
  path : Bytes
  mode : UInt8
  client : NamespaceClient ω
  fid : Fid

namespace ResumableFid

variable {ω α : Type} (N : Network ω)
  (reconnectAfter : NamespaceClient ω → Result Unit × NamespaceClient ω)

/-- An operation of the client that the file is bound to. -/
def onClient (operation : Checked (NamespaceClient ω) Error α) : Checked (ResumableFid ω) Error α :=
  .ofExec fun self =>
    ((operation.exec self.client).1, { self with client := (operation.exec self.client).2 })

/-- `resumable_fid.rs:125`. -/
def openBinding (path : Bytes) (mode : UInt8) : Checked (NamespaceClient ω) Error Fid := do
  let fid ← NamespaceClient.walkPath N path
  match ← (NamespaceClient.open N fid mode).attempt with
  | .ok _ => pure fid
  | .error error =>
    let _ ← (NamespaceClient.clunk N fid).attempt
    throw error

/-- `resumable_fid.rs:103`. The session puts another client in the place of the one that
failed, `ClientSession::reconnect_after`. -/
def reopenAfterFailure : Checked (ResumableFid ω) Error Unit := do
  onClient (.ofExec reconnectAfter)
  let self ← .ask fun self : ResumableFid ω => .ok self
  let fid ← onClient (openBinding N self.path self.mode)
  .update fun self => { self with fid := fid }

/-- So many turns of the loop of `resumable_fid.rs:50`. There is no result while it goes on. -/
def retry (operation : Fid → Checked (NamespaceClient ω) Error α) :
    Nat → Checked (ResumableFid ω) Error (Option α)
  | 0 => pure none
  | turns + 1 => do
    let self ← .ask fun self : ResumableFid ω => .ok self
    match ← (onClient (operation self.fid)).attempt with
    | .ok result => pure (some result)
    | .error error =>
      if error.isDefinitiveTransportFailure then
        reopenAfterFailure N reconnectAfter
        retry operation turns
      else throw error

/-- `resumable_fid.rs:49`. -/
def read (offset : UInt64) (count : UInt32) (turns : Nat) :
    Checked (ResumableFid ω) Error (Option Bytes) :=
  retry N reconnectAfter (fun fid => NamespaceClient.read N fid offset count) turns

/-- `resumable_fid.rs:77`. -/
def write (offset : UInt64) (data : Bytes) (turns : Nat) :
    Checked (ResumableFid ω) Error (Option UInt32) :=
  retry N reconnectAfter (fun fid => NamespaceClient.write N fid offset data) turns

variable {N reconnectAfter} {self : ResumableFid ω} {error : Error}

variable {client : NamespaceClient ω} {operation : Fid → Checked (NamespaceClient ω) Error α}

theorem attempt_onClient {operation : Checked (NamespaceClient ω) Error α} {result : Result α}
    (h : operation.exec self.client = (result, client)) :
    (onClient operation).attempt.exec self = (.ok result, { self with client := client }) := by
  show (Except.ok ((operation.exec self.client).1), _) = _
  show (_, { self with client := (operation.exec self.client).2 }) = _
  rw [h]

/-- A result or an error that is not taken for a dead transport ends the loop in its first
turn. -/
theorem retry_ends {answer : Result α}
    (turns : Nat) (ho : (operation self.fid).exec self.client = (answer, client))
    (ha : ∀ error, answer = .error error → error.isDefinitiveTransportFailure = false) :
    (retry N reconnectAfter operation (turns + 1)).exec self =
      (answer.map some, { self with client := client }) := by
  rw [retry, exec_bind]
  show Checked.exec ((onClient (operation self.fid)).attempt >>= _) self = _
  rw [exec_bind_ok (attempt_onClient ho)]
  cases answer with
  | ok result => rfl
  | error error =>
    dsimp only
    rw [ha error rfl]
    rfl

/-- An error that is leads to another turn on a fresh attachment. -/
theorem retry_again
    {reopened : ResumableFid ω} (turns : Nat)
    (ho : (operation self.fid).exec self.client = (.error error, client))
    (he : error.isDefinitiveTransportFailure = true)
    (hr : (reopenAfterFailure N reconnectAfter).exec { self with client := client } =
      (.ok (), reopened)) :
    (retry N reconnectAfter operation (turns + 1)).exec self =
      (retry N reconnectAfter operation turns).exec reopened := by
  rw [retry, exec_bind]
  show Checked.exec ((onClient (operation self.fid)).attempt >>= _) self = _
  rw [exec_bind_ok (attempt_onClient ho)]
  dsimp only
  rw [he, if_pos rfl, exec_bind_ok hr]

/-- The answers that a cause allows: a result, or its error. -/
def Answers (cause : Cause) (answer : Result α) : Prop :=
  ∀ error, answer = .error error → error = clientError cause.error

/-- An error is not taken for a dead transport exactly if its text is harmless: a read or write that
is answered with it, or with a result, then ends behind one attempt, without another connection,
and no route is dropped. -/
theorem harmless_error_is_final (N : Network ω)
    (reconnectAfter : NamespaceClient ω → Result Unit × NamespaceClient ω) (cause : Cause) :
    ((clientError cause.error).isDefinitiveTransportFailure = false ∧
      (∀ (self : ResumableFid ω) (offset : UInt64) (count : UInt32) (answer : Result Bytes)
        (client : NamespaceClient ω), Answers cause answer →
        (NamespaceClient.read N self.fid offset count).exec self.client = (answer, client) →
          ∀ turns, (read N reconnectAfter offset count (turns + 1)).exec self =
            (answer.map some, { self with client := client })) ∧
      (∀ (self : ResumableFid ω) (offset : UInt64) (data : Bytes) (answer : Result UInt32)
        (client : NamespaceClient ω), Answers cause answer →
        (NamespaceClient.write N self.fid offset data).exec self.client = (answer, client) →
          ∀ turns, (write N reconnectAfter offset data (turns + 1)).exec self =
            (answer.map some, { self with client := client })) ∧
      (∀ (client : NamespaceClient ω) (failedFid : Fid) (failedClient : DirectClient)
        (routeMount : Option Bytes),
        (NamespaceClient.recoverReadOnlyRoute N failedFid failedClient routeMount
          (clientError cause.error)).exec client = (.ok false, client)) ∧
      ∀ (client : NamespaceClient ω) (target : RoutedTarget),
        (NamespaceClient.invalidateFailedRoute target (clientError cause.error)).exec client =
          (.ok (), client)) ↔ Harmless cause.error.message := by
  refine ⟨fun h => not_definitive_iff.mp h.1, fun hharmless => ?_⟩
  have hn : (clientError cause.error).isDefinitiveTransportFailure = false :=
    not_definitive_iff.mpr hharmless
  refine ⟨hn, ?_, ?_, ?_, ?_⟩
  · intro self offset count answer client ha hrd turns
    exact retry_ends turns hrd fun error he => ha error he ▸ hn
  · intro self offset data answer client ha hw turns
    exact retry_ends turns hw fun error he => ha error he ▸ hn
  · intro client failedFid failedClient routeMount
    cases routeMount with
    | none => rfl
    | some routeMount =>
      unfold NamespaceClient.recoverReadOnlyRoute
      rw [hn]
      rfl
  · intro client target
    unfold NamespaceClient.invalidateFailedRoute
    cases target.routeMount with
    | none => rfl
    | some routeMount =>
      rw [hn]
      rfl

/-- A network whose server opens every file and answers every read with one error. -/
def refusing (ename : String) : Network Unit :=
  { NamespaceClient.silent with
    walk := fun _ _ _ world => (.ok 2, world)
    «open» := fun _ _ _ world => (.ok (.file 0), world)
    read := fun _ _ _ _ world => (.error (clientError ⟨utf8 ename⟩), world) }

/-- A client with a file open as fid 2. -/
def opened : ResumableFid Unit where
  path := utf8 "/log"
  mode := Mode.OREAD
  client :=
    { root := 0
      routes := []
      next := 3
      bindings := Function.update (fun _ => none) 2 (some ⟨[utf8 "log"], .remote ⟨0, 2, none⟩⟩)
      world := () }
  fid := 2

/-- The session attaches afresh. -/
def again (_failed : NamespaceClient Unit) : Result Unit × NamespaceClient Unit :=
  (.ok (), { root := 0, routes := [], next := 2, bindings := fun _ => none, world := () })

/-- A server that says `permission denied: /run/pipe` is asked once. -/
theorem harmless_error_is_final_denied :
    ((read (refusing "permission denied: /run/pipe") again 0 1 7).exec opened).1 =
      .error ⟨Errno.EACCES, utf8 "permission denied: /run/pipe"⟩ := by
  have hh : Harmless (Cause.rerror (utf8 "permission denied: /run/pipe")).error.message := by
    rw [← not_definitive_iff]
    decide +kernel
  rw [((harmless_error_is_final (refusing "permission denied: /run/pipe") again _).mpr hh).2.1
    opened 0 1 (.error (clientError ⟨utf8 "permission denied: /run/pipe"⟩)) opened.client
    (fun error he => (Except.error.inj he).symm) (by rfl) 6]
  rfl

/-- A server that says `broken pipe` is taken for a dead one, and so is the client's own refusal
to send. The file is opened again and read again without end. -/
theorem answered_error_repeats_without_end :
    (clientError (Cause.rerror (utf8 "broken pipe")).error).isDefinitiveTransportFailure = true ∧
      (clientError (Cause.refused (utf8 "frame exceeds msize")).error).isDefinitiveTransportFailure
        = true ∧
      ∀ turns,
        (read (refusing "broken pipe") again 0 1 turns).exec opened = (.ok none, opened) := by
  refine ⟨by decide +kernel, by decide +kernel, fun turns => ?_⟩
  induction turns with
  | zero => rfl
  | succ turns ih =>
    have hrd : (NamespaceClient.read (refusing "broken pipe") opened.fid 0 1).exec
        opened.client = (.error (clientError ⟨utf8 "broken pipe"⟩), opened.client) := by rfl
    have hr : (reopenAfterFailure (refusing "broken pipe") again).exec opened =
        (.ok (), opened) := by rfl
    unfold read at ih ⊢
    rw [retry_again turns hrd (by decide +kernel) hr, ih]

end ResumableFid

end R9P.Session
