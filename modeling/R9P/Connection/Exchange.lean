import R9P.Connection.Moves

/-!
# Steps of a connection, computed

Library `Connection`. The steps of the reader and of the workers as a function, which finds the
runs on given messages, and `Delivers`, the condition that the replies of workers get on the
stream and that the loop does not end for another reason than a failed write.
-/

namespace R9P.Connection
open Base Wire Server

/-- The session had no reply for the request. -/
def Stage.unanswered : Stage → Bool
  | completed none _ | finished none _ => true
  | _ => false

namespace Conn

variable {c c' : Conn} {limit : Nat} {action : Action}

/-- If the step is a worker's write, the reply fits the message size and the stream takes it; the
input ends when every request has been answered or had its tag taken away; and the handler's reset
for a version request does not fail where it left a request without an answer. -/
def Delivers (c : Conn) : Action → Prop
  | .hangsUp _ => ∀ job ∈ c.jobs, job.stage.early = true → job.withdrawn = true
  | .drains (.error _) => ∀ m, c.reader = .draining (.proceed m) →
    ∀ job ∈ c.jobs, job.stage.unanswered = false
  | .writes number io => ∀ (job : Job) (reply : RMessage) (msize : UInt32),
    c.jobs[number]? = some job → job.worker = true →
      job.stage = .completed (some reply) msize → writeRMessageChecked msize reply io = .ok ()
  | _ => True

/-- The steps of the reader and of the workers, computed; a step that is not enabled gives
nothing. Only the steps of requests that are served are here. -/
def next (limit : Nat) (c : Conn) : Action → Option Conn
  | .reads message =>
    match c.reader with
    | .reading => some { c with
        reader := if message.messageType = TVERSION then .resetting (.proceed message)
          else .admitting message }
    | _ => none
  | .resets =>
    match c.reader with
    | .resetting next => some (c.resetSection next)
    | _ => none
  | .drains handlerReset =>
    match c.reader with
    | .draining next =>
      if c.active = [] then some { c with reader := next.resume handlerReset } else none
    | _ => none
  | .admits isAsync =>
    match c.reader with
    | .admitting message => some (c.admitSection message isAsync)
    | _ => none
  | .takesWriter =>
    match c.reader with
    | .replying origin reply =>
      if c.writer = none then
        some { c with reader := .replyLocked origin reply, writer := some .reader }
      else none
    | _ => none
  | .sizes =>
    match c.reader with
    | .replyLocked origin reply =>
      some { c with reader := .replySized origin reply c.session.msize }
    | _ => none
  | .sends io =>
    match c.reader with
    | .replySized origin reply msize => some (c.replySection origin reply msize io)
    | _ => none
  | .registers fid =>
    match c.reader with
    | .dispatching number =>
      c.jobs[number]?.map fun job => c.registerSection limit number job.request.key fid
    | _ => none
  | .spawns =>
    match c.reader with
    | .spawning number => some
        { c.onJob number (fun job => { job with worker := true, stage := .performing }) with
          reader := .reading }
    | _ => none
  | .returns number result =>
    c.jobs[number]?.bind fun job =>
      if job.stage = .performing then some (c.setStage number (.returned result)) else none
  | .locks number =>
    c.jobs[number]?.bind fun job =>
      match job.stage with
      | .returned result =>
        if c.writer = none then
          some { c.setStage number (.locked result) with writer := some (.job number) }
        else none
      | _ => none
  | .completes number =>
    c.jobs[number]?.bind fun job =>
      match job.stage with
      | .locked result => some (c.completeSection number job.request result)
      | _ => none
  | .writes number io =>
    c.jobs[number]?.bind fun job =>
      match job.stage with
      | .completed reply msize => some (c.writeSection number job.worker reply msize io)
      | _ => none
  | _ => none

theorem step_of_next (h : c.next limit action = some c') : c.Step limit action c' := by
  cases action with
  | reads message =>
    dsimp only [next] at h
    split at h
    · next at_ =>
      cases h
      exact .reads message at_
    · cases h
  | registers fid =>
    dsimp only [next] at h
    split at h
    · next at_ =>
      obtain ⟨job, dispatched, rfl⟩ := Option.map_eq_some_iff.mp h
      exact .registers fid at_ dispatched
    · cases h
  | returns number _ | locks number | completes number | writes number _ =>
    obtain ⟨job, dispatched, h⟩ := Option.bind_eq_some_iff.mp h
    -- The stage of the job and the lock that the step waits for.
    repeat' split at h
    all_goals cases h
    all_goals constructor <;> assumption
  | _ =>
    dsimp only [next] at h
    repeat' split at h
    all_goals cases h
    all_goals constructor <;> assumption

/-- The connection with more frames behind it. -/
def behind (c : Conn) (older : List Frame) : Conn := { c with written := c.written ++ older }

theorem behind_onEvent (older : List Frame) (m : TMessage) (event : ServerEvent) (isAsync : Bool) :
    (c.behind older).onEvent m event isAsync = (c.onEvent m event isAsync).behind older := by
  unfold onEvent
  split
  · rfl
  · rfl
  · rfl
  · next request =>
    split <;> rfl
  · rfl
  · rfl

/-- No step looks at what is on the stream. -/
theorem next_behind (older : List Frame) (action : Action) :
    (c.behind older).next limit action = (c.next limit action).map (·.behind older) := by
  have hr : (c.behind older).reader = c.reader := rfl
  have hj : (c.behind older).jobs = c.jobs := rfl
  have hw : (c.behind older).writer = c.writer := rfl
  have ha : (c.behind older).active = c.active := rfl
  cases action with
  | admits isAsync =>
    simp only [next, hr]
    split
    · exact congrArg some (behind_onEvent (c := { c with session := _, generations := _ }) ..)
    · rfl
  | sends io =>
    simp only [next, hr]
    split
    · unfold replySection behind
      dsimp only [Option.map]
      split <;> rfl
    · rfl
  | registers fid =>
    simp only [next, hr, hj]
    split
    · next number _ =>
      cases c.jobs[number]? with
      | none => rfl
      | some job =>
        dsimp only [Option.map, registerSection]
        rw [ha]
        split <;> rfl
    · rfl
  | returns number _ | completes number | locks number =>
    simp only [next, hj, hw]
    cases c.jobs[number]? with
    | none => rfl
    | some job =>
      dsimp only [Option.bind]
      split <;> first | rfl | (split <;> rfl)
  | writes number io =>
    simp only [next, hj]
    cases c.jobs[number]? with
    | none => rfl
    | some job =>
      dsimp only [Option.bind]
      split
      · next reply msize _ =>
        by_cases hok : writeOutcome reply msize io = .ok ()
        · simp only [writeSection, behind, if_pos hok, List.append_assoc, Option.map_some]
          rfl
        · simp only [writeSection, behind, if_neg hok, Option.map_some]
          rfl
      · rfl
  | _ =>
    simp only [next, hr, hw, ha]
    first | rfl | (split <;> first | rfl | (split <;> rfl))

theorem foldlM_behind (older : List Frame) (actions : List Action) :
    actions.foldlM (next limit) (c.behind older) =
      (actions.foldlM (next limit) c).map (·.behind older) := by
  induction actions generalizing c with
  | nil => rfl
  | cons action actions ih =>
    rw [List.foldlM_cons, List.foldlM_cons, next_behind]
    cases c.next limit action with
    | none => rfl
    | some c' => exact ih

/-- `Delivers`, computed. -/
def delivers (c : Conn) : Action → Bool
  | .hangsUp _ => c.jobs.all fun job => !job.stage.early || job.withdrawn
  | .drains (.error _) => c.jobs.all fun job => !job.stage.unanswered
  | .writes number io => c.jobs[number]?.all fun job =>
    match job.stage with
    | .completed (some reply) msize => !job.worker || writeRMessageChecked msize reply io = .ok ()
    | _ => true
  | _ => true

theorem delivers_of_eq (h : c.delivers action = true) : c.Delivers action := by
  cases action with
  | hangsUp result =>
    intro job hj he
    simpa [he] using List.all_eq_true.mp h job hj
  | drains handlerReset =>
    cases handlerReset with
    | ok _ => trivial
    | error e =>
      intro m _ job hj
      simpa using List.all_eq_true.mp h job hj
  | writes number io =>
    intro job reply msize hj hw hs
    unfold delivers at h
    simpa [hj, hw, hs] using h
  | _ => trivial

/-- The steps with every reply of a worker delivered, computed. -/
def nextDelivered (limit : Nat) (c : Conn) (action : Action) : Option Conn :=
  if c.delivers action then c.next limit action else none

theorem step_of_nextDelivered {config : ServerConfig}
    (h : c.nextDelivered config.maxAsyncRequests action = some c') :
    ((connection config).restrict Delivers).step c action c' := by
  unfold nextDelivered at h
  split at h
  · next hd => exact ⟨delivers_of_eq hd, step_of_next h⟩
  · cases h

/-! ### Messages of a client -/

/-- A version request, answered. -/
def greeting (msize : UInt32) : List Action :=
  [.reads (.version NOTAG msize (utf8 "9P2000")), .resets, .drains (.ok ()), .admits false,
    .takesWriter, .sizes, .sends (.ok ())]

/-- A message that is left to a worker. -/
def spawning (message : TMessage) (fid : Option Fid) : List Action :=
  [.reads message, .admits true, .registers fid, .spawns]

/-- A message that the reader answers. -/
def serving (message : TMessage) : List Action :=
  [.reads message, .admits false, .takesWriter, .sizes, .sends (.ok ())]

/-- The handler returns, and the reply is written. -/
def replying (number : Nat) (result : Result ServerCompletion) : List Action :=
  [.returns number result, .locks number, .completes number, .writes number (.ok ())]

end Conn
end R9P.Connection
