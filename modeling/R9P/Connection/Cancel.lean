import R9P.Connection.Exchange

/-!
# Cancelling the work on a fid

Library `Connection`. `Observed` is a connection together with what passes between its reader
and its handler: the fid that `cancellation_fid` gives for a request, the flags that go up,
and the calls of `wake_after_cancel` and `perform`. A worker keeps its entry in the
cancellation map until it is done or its flag is up, so that a clunk finds it there.
-/

namespace R9P.Connection
open Base Wire Server
open List (mem_append mem_filter mem_map)

/-! ### What the handler sees -/

inductive Signal where
  /-- The flag of a request goes up. -/
  | cancelled (number : Nat)
  /-- `wake_after_cancel` is called. -/
  | woken
  /-- `perform` is called. -/
  | performed (number : Nat)
  deriving DecidableEq

namespace Conn

/-- The entries that `admit` takes out of the cancellation map; `connection.rs:228`. -/
def cancelsOn (c : Conn) : ServerEvent → CancelMap
  | .flush _ (.cancelled key) => c.pending.filter (·.1 = key)
  | .dispatch ⟨_, .clunk fid _⟩ => c.pending.filter (·.2.fid = some fid)
  | _ => []

/-- The entries whose flags a step raises. -/
def cancels (c : Conn) : Action → CancelMap
  | .admits _ =>
    match c.reader with
    | .admitting message => c.cancelsOn (admitMessage c.session message).1
    | _ => []
  | .resets => c.pending
  | _ => []

/-- The request whose `perform` a step calls. -/
def performs (c : Conn) : Action → Option Nat
  | .admits false =>
    match c.reader with
    | .admitting message =>
      (admitMessage c.session message).1.dispatched.map fun _ => c.jobs.length
    | _ => none
  | .spawns =>
    match c.reader with
    | .spawning number => some number
    | _ => none
  | _ => none

/-- What a step does in the eyes of the handler, newest first: `connection.rs:125` wakes it
behind the flags and before the request is performed. -/
def signals (c : Conn) (action : Action) : List Signal :=
  ((c.performs action).map .performed).toList ++
    ((if (c.cancels action).isEmpty then [] else [.woken]) ++
      (c.cancels action).map fun entry => .cancelled entry.2.cancel)

/-- The fid that the handler gives for the request a step registers. -/
def names (c : Conn) : Action → List (Nat × Option Fid)
  | .registers fid =>
    match c.reader with
    | .dispatching number => [(number, fid)]
    | _ => []
  | _ => []

end Conn

/-- A connection with the fids named so far and all signals, newest first. -/
structure Observed where
  conn : Conn
  named : List (Nat × Option Fid)
  signals : List Signal

/-- The observer behind a step. -/
def Observed.after (o : Observed) (action : Conn.Action) (c' : Conn) : Observed :=
  ⟨c', o.conn.names action ++ o.named, o.conn.signals action ++ o.signals⟩

/-- A connection under observation. -/
def observed (config : ServerConfig) : System Observed Conn.Action where
  initial o := o = ⟨.new config, [], []⟩
  step o action o' := ∃ c', o.conn.Step config.maxAsyncRequests action c' ∧ o' = o.after action c'

variable {config : ServerConfig} {history : List Conn.Action} {limit : Nat} {o : Observed}
  {c c' : Conn} {action : Conn.Action} {d : Nat} {job job' : Job} {m : TMessage} {fid : Option Fid}

/-- The observer does not interfere. -/
theorem run_observed (run : (observed config).Run history o) :
    (connection config).Run history o.conn := by
  induction run with
  | start h =>
    rw [h]
    exact .start rfl
  | next _ hst ih =>
    obtain ⟨c', hst, rfl⟩ := hst
    exact .next ih hst

theorem exists_observed (run : (connection config).Run history c) :
    ∃ o, (observed config).Run history o ∧ o.conn = c := by
  induction run with
  | start h => exact ⟨_, .start rfl, h.symm⟩
  | @next history c c' action _ hst ih =>
    obtain ⟨o, hr, rfl⟩ := ih
    exact ⟨_, .next hr ⟨c', hst, rfl⟩, rfl⟩

theorem Reader.resume_ne_spawning (outcome : Result Unit) (d : Nat) :
    Reader.resume outcome ≠ .spawning d := by
  cases outcome with
  | ok _ | error e => nofun

theorem Next.resume_ne_spawning (next : Next) (result : Result Unit) (d : Nat) :
    next.resume result ≠ .spawning d := by
  cases next with
  | proceed message => cases result <;> nofun
  | close outcome => cases outcome <;> nofun

namespace Conn

/-! ### Flags and entries behind a step -/

/-- A worker performs the request, or is about to. -/
def Worked (c : Conn) (d : Nat) (job : Job) : Prop :=
  c.reader = .spawning d ∨ job.worker = true ∧ job.cleared = false

/-- A request behind a step: its flag is up if it was or if its entry is cancelled, and its
worker was there before unless it is being registered. -/
structure Follows (c c' : Conn) (action : Action) (d : Nat) (job job' : Job) : Prop where
  request : job'.request = job.request
  cancel : job'.cancel = (job.cancel || (c.cancels action).any fun entry => entry.2.cancel = d)
  worked : c'.Worked d job' → c.Worked d job ∨ c.reader = .dispatching d

/-- The reader has no new worker. -/
def Settles (c c' : Conn) : Prop :=
  ∀ d, c'.reader = .spawning d → c.reader = .spawning d ∨ c.reader = .dispatching d

private theorem follows_of_modify {n : Nat} {f : Job → Job} (hjb : c'.jobs = c.jobs.modify n f)
    (hcn : c.cancels action = []) (hs : c.Settles c')
    (hf : ∀ job : Job, (f job).request = job.request ∧ (f job).cancel = job.cancel ∧
      ((f job).worker = true ∧ (f job).cleared = false → c.Worked n job))
    (hj : c.jobs[d]? = some job) :
    ∃ job', c'.jobs[d]? = some job' ∧ Follows c c' action d job job' := by
  have hl : c'.jobs[d]? = if n = d then c.jobs[d]?.map f else c.jobs[d]? := by
    rw [hjb]
    exact getElem?_onJob
  by_cases hd : n = d
  · obtain ⟨hrq, hc, hw⟩ := hf job
    rw [hl, if_pos hd, hj]
    refine ⟨f job, rfl, hrq, ?_, ?_⟩
    · rw [hcn, hc]
      exact (Bool.or_false _).symm
    · rintro (hr | hdn)
      · exact (hs d hr).imp_left .inl
      · exact .inl (hd ▸ hw hdn)
  · rw [hl, if_neg hd]
    refine ⟨job, hj, rfl, ?_, ?_⟩
    · rw [hcn]
      exact (Bool.or_false _).symm
    · rintro (hr | hdn)
      · exact (hs d hr).imp_left .inl
      · exact .inl (.inr hdn)

private theorem follows_of_eq (hjb : c'.jobs = c.jobs) (hcn : c.cancels action = [])
    (hs : c.Settles c') (hj : c.jobs[d]? = some job) :
    ∃ job', c'.jobs[d]? = some job' ∧ Follows c c' action d job job' := by
  refine follows_of_modify (n := 0) (f := id) ?_ hcn hs (fun _ => ⟨rfl, rfl, .inr⟩) hj
  exact hjb.trans (List.modify_id 0 _).symm

/-- The entries that leave the map have their flags up, and the reader has no worker to
spawn. -/
structure Cancels (c c' : Conn) (entries : CancelMap) : Prop where
  pending : ∀ entry ∈ c.pending, entry ∈ c'.pending ∨ entry ∈ entries
  reader : ∀ d, c'.reader ≠ .spawning d
  jobs : ∀ (d : Nat) (job : Job), c.jobs[d]? = some job →
    ∃ withdrawn, c'.jobs[d]? = some { job with
      cancel := job.cancel || entries.any fun entry => entry.2.cancel = d
      withdrawn := withdrawn }

theorem cancels_nothing (hp : c'.pending = c.pending) (hr : ∀ d, c'.reader ≠ .spawning d)
    (hjb : ∀ d : Nat, d < c.jobs.length → c'.jobs[d]? = c.jobs[d]?) : Cancels c c' [] where
  pending := fun entry he => .inl (hp ▸ he)
  reader := hr
  jobs := by
    intro d job hj
    refine ⟨job.withdrawn, ?_⟩
    rw [hjb d (List.getElem?_eq_some_iff.mp hj).1, hj, List.any_nil, Bool.or_false]

/-- A request with a flag raised and its withdrawal noted. -/
theorem getElem?_withdraw_raise {jobs : List Job} (entries : CancelMap) (p : Job → Bool)
    (hj : jobs[d]? = some job) :
    ∃ withdrawn, (withdraw (raise jobs entries) p)[d]? = some { job with
      cancel := job.cancel || entries.any fun entry => entry.2.cancel = d
      withdrawn := withdrawn } := by
  rw [getElem?_withdraw, getElem?_raise, hj]
  exact ⟨_, rfl⟩

theorem cancels_dispatch (c : Conn) (request : ServerRequest) (isAsync : Bool) :
    Cancels c (c.onEvent m (.dispatch request) isAsync) (c.cancelsOn (.dispatch request)) := by
  have hev : c.onEvent m (.dispatch request) isAsync =
      c.onEvent (.clunk 0 0) (.dispatch request) isAsync := by cases m <;> rfl
  rw [hev]
  obtain ⟨key, kind⟩ := request
  have hr {n : Nat} : ∀ d, (if isAsync then .dispatching n else
      Reader.serving n) ≠ .spawning d := by
    cases isAsync <;> nofun
  cases kind with
  | clunk fid qid =>
    refine ⟨fun entry he => ?_, hr, fun d job hj => ⟨job.withdrawn, ?_⟩⟩
    · by_cases hf : entry.2.fid = some fid
      · exact .inr (mem_filter.mpr ⟨he, decide_eq_true hf⟩)
      · exact .inl (mem_filter.mpr ⟨he, decide_eq_true hf⟩)
    · have hrs : (raise c.jobs (c.pending.filter (·.2.fid = some fid)))[d]? = _ :=
        getElem?_raise
      rw [hj] at hrs
      exact (List.getElem?_append_left (List.getElem?_eq_some_iff.mp hrs).1).trans hrs
  | _ =>
    exact cancels_nothing rfl hr fun d hd => List.getElem?_append_left hd

/-- What the reader does with an event cancels the entries `admit` takes out. -/
theorem cancels_onEvent (c : Conn) {event : ServerEvent} {s s' : Session}
    (ha : s.Admission m event s') (isAsync : Bool) :
    Cancels c (c.onEvent m event isAsync) (c.cancelsOn event) := by
  have hr (reply : RMessage) : Cancels c (c.onEvent m (.reply reply) isAsync) [] := by
    cases m with
    | _ => exact cancels_nothing rfl nofun fun _ _ => rfl
  cases ha with
  | version message reset answer => exact hr message
  | rejected e uses | refused e begins => exact hr _
  | @flushed tag oldtag outcome begins old found =>
    cases outcome with
    | cancelled key =>
      refine ⟨fun entry he => ?_, nofun, fun d job hj => getElem?_withdraw_raise _ _ hj⟩
      by_cases hk : entry.1 = key
      · exact .inr (mem_filter.mpr ⟨he, decide_eq_true hk⟩)
      · exact .inl (mem_filter.mpr ⟨he, decide_eq_true hk⟩)
    | unknown =>
      refine ⟨fun entry he => .inl he, nofun, fun d job hj => ?_⟩
      show ∃ withdrawn, (withdraw c.jobs fun job => job.request.tag = oldtag)[d]? =
        some { job with cancel := job.cancel || false, withdrawn := withdrawn }
      rw [getElem?_withdraw, hj, Bool.or_false]
      exact ⟨_, rfl⟩
  | dispatched begins permits acquires => exact cancels_dispatch c _ isAsync

theorem Cancels.follows {entries : CancelMap} (h : Cancels c c' entries)
    (hcn : c.cancels action = entries) (hj : c.jobs[d]? = some job) :
    ∃ job', c'.jobs[d]? = some job' ∧ Follows c c' action d job job' := by
  obtain ⟨withdrawn, hj'⟩ := h.jobs d job hj
  refine ⟨_, hj', rfl, by rw [hcn], ?_⟩
  rintro (hr | hw)
  · exact absurd hr (h.reader d)
  · exact .inl (.inr hw)

theorem cancels_admitSection (h : c.Sound) (at_ : c.reader = .admitting m) (isAsync : Bool) :
    Cancels c (c.admitSection m isAsync) (c.cancels (.admits isAsync)) := by
  have hcn : c.cancels (.admits isAsync) = c.cancelsOn (admitMessage c.session m).1 := by
    rw [cancels, at_]
  rw [hcn]
  have hs := cancels_onEvent
    { c with
      session := (admitMessage c.session m).2
      generations := c.generations + (c.session.usesGeneration m).toNat } (h.admission at_) isAsync
  exact ⟨hs.pending, hs.reader, hs.jobs⟩

theorem cancels_resetSection (next : Next) : Cancels c (c.resetSection next) c.pending :=
  ⟨fun _ => .inr, nofun, fun _ _ hj => getElem?_withdraw_raise _ _ hj⟩

theorem Step.follows (hst : c.Step limit action c') (h : c.Sound) (hj : c.jobs[d]? = some job) :
    ∃ job', c'.jobs[d]? = some job' ∧ Follows c c' action d job job' := by
  cases hst with
  | resets at_ => exact (cancels_resetSection _).follows rfl hj
  | admits isAsync at_ => exact (cancels_admitSection h at_ isAsync).follows rfl hj
  | @registers number job fid at_ dispatched =>
    unfold registerSection
    split
    · exact follows_of_modify rfl rfl (fun _ h => by cases h) (fun job => ⟨rfl, rfl, .inr⟩) hj
    · refine follows_of_eq rfl rfl (fun d hd => .inr ?_) hj
      cases hd
      exact at_
  | spawns at_ =>
    exact follows_of_modify rfl rfl (fun _ h => by cases h)
      (fun job => ⟨rfl, rfl, fun _ => .inl at_⟩) hj
  | unspawns at_ =>
    exact follows_of_modify rfl rfl (fun _ h => by cases h) (fun job => ⟨rfl, rfl, .inr⟩) hj
  | returns number result dispatched stage | panics number dispatched stage worker
  | locks number dispatched stage free | completes number dispatched stage =>
    exact follows_of_modify rfl rfl (fun _ => .inl) (fun job => ⟨rfl, rfl, .inr⟩) hj
  | @writes job₀ reply msize number io dispatched stage =>
    refine follows_of_modify rfl rfl ?_ (fun job => ⟨rfl, rfl, .inr⟩) hj
    intro d hd
    cases hw : job₀.worker with
    | true =>
      rw [writeSection, hw] at hd
      exact .inl hd
    | false =>
      rw [writeSection, hw] at hd
      exact absurd hd (Reader.resume_ne_spawning _ d)
  | clears number dispatched worker ended cleared =>
    exact follows_of_modify rfl rfl (fun _ => .inl) (fun job => ⟨rfl, rfl, by simp⟩) hj
  | leaves number dispatched cleared => exact follows_of_eq rfl rfl (fun _ => .inl) hj
  | reads message at_ =>
    refine follows_of_eq rfl rfl (fun d hd => ?_) hj
    split at hd <;> cases hd
  | drains ha at_ idle =>
    exact follows_of_eq rfl rfl (fun d hd => absurd hd (Next.resume_ne_spawning _ _ d)) hj
  | sends io at_ =>
    exact follows_of_eq rfl rfl (fun d hd => absurd hd (Reader.resume_ne_spawning _ d)) hj
  | _ => exact follows_of_eq rfl rfl (fun _ h => by cases h) hj

/-- An entry stays in the map unless its flag goes up, its worker is gone, or its key is
registered again. -/
theorem Step.entry (hst : c.Step limit action c') (h : c.Sound) {entry : RequestKey ×
    PendingCancel} (he : entry ∈ c.pending) :
    entry ∈ c'.pending ∨ entry ∈ c.cancels action ∨
      ∃ n job job', c.jobs[n]? = some job ∧ job.request.key = entry.1 ∧
        c'.jobs[n]? = some job' ∧ (c'.Worked n job' → c.reader = .dispatching n) := by
  have hrm {key : RequestKey} (hk : key ≠ entry.1) : entry ∈ c.pending.remove key :=
    mem_filter.mpr ⟨he, decide_eq_true (.symm hk)⟩
  cases hst with
  | resets at_ => exact .inr (.inl he)
  | admits isAsync at_ =>
    rcases (cancels_admitSection h at_ isAsync).pending entry he with hkp | hcn
    · exact .inl hkp
    · exact .inr (.inl hcn)
  | @registers number job fid at_ dispatched =>
    unfold registerSection
    split
    · exact .inl he
    · by_cases hk : job.request.key = entry.1
      · exact .inr (.inr ⟨number, job, job, dispatched, hk, dispatched, fun _ => at_⟩)
      · exact .inl (List.mem_cons_of_mem _ (hrm hk))
  | @unregisters number text job at_ dispatched =>
    by_cases hk : job.request.key = entry.1
    · refine .inr (.inr ⟨number, job, job, dispatched, hk, dispatched, ?_⟩)
      rintro (hr | ⟨hw, -⟩)
      · cases hr
      · obtain ⟨-, hnn⟩ := h.seated.start (by rw [at_]; rfl) dispatched
        rw [hnn] at hw
        cases hw
    · exact .inl (hrm hk)
  | @clears job number dispatched worker ended cleared =>
    by_cases hk : job.request.key = entry.1
    · refine .inr (.inr ⟨number, job, { job with cleared := true }, dispatched, hk, ?_, ?_⟩)
      · rw [getElem?_onJob, if_pos rfl, dispatched]
        rfl
      · rintro (hr | ⟨-, hc⟩)
        · have hs : c.reader.starts = some number := by
            rw [show c.reader = _ from hr]
            rfl
          obtain ⟨-, hnn⟩ := h.seated.start hs dispatched
          rw [hnn] at worker
          cases worker
        · cases hc
    · exact .inl (hrm hk)
  | _ => exact .inl he

/-- The request that an admission dispatches comes last, with its flag down. -/
theorem getElem?_admitSection {r : ServerRequest} (isAsync : Bool)
    (hev : (admitMessage c.session m).1 = .dispatch r) :
    (c.admitSection m isAsync).jobs[c.jobs.length]? =
      some ⟨r, false, if isAsync then .admitted else .performing, false, false, false⟩ := by
  obtain ⟨kept, pending, hkp, hs⟩ := onEvent_dispatch
    { c with
      session := (admitMessage c.session m).2
      generations := c.generations + (c.session.usesGeneration m).toNat } m r isAsync
  rw [admitSection, hev, hs]
  have hl : kept.length = c.jobs.length := hkp.length_eq
  rw [← hl]
  exact List.getElem?_concat_length

theorem Begun.cancel_eq (h : Begun c c' d job') (hj' : c'.jobs[d]? = some job') :
    job'.cancel = false := by
  obtain ⟨m, isAsync, at_, rfl, hev⟩ := h.admitted
  rw [h.number, getElem?_admitSection isAsync hev, Option.some.injEq] at hj'
  rw [← hj']

/-- The reader registers a request right behind its admission. -/
theorem Step.dispatching (hst : c.Step limit action c') (h : c.Sound)
    (hr : c'.reader = .dispatching d) :
    c.jobs[d]? = none ∨ c.reader = .dispatching d ∧ c.names action = [] := by
  have ht := hst.turns h
  generalize hr' : c'.reader = r at ht hr
  cases ht with
  | stays =>
    refine .inr ⟨hr, ?_⟩
    unfold names
    split
    · -- A registration leaves the reader elsewhere.
      cases hst with
      | registers fid at_ dispatched =>
        unfold registerSection at hr'
        rw [hr] at hr'
        split at hr' <;> cases hr'
    · rfl
  | works _ hr' =>
    rw [hr] at hr'
    cases hr'
  | admits _ _ taken =>
    rw [hr] at taken
    rcases taken with ho | hd
    · cases ho
    · cases hd
      exact .inl (List.getElem?_eq_none (Nat.le_refl _))
  | _ => cases hr

theorem mem_names (h : (d, fid) ∈ c.names action) :
    action = .registers fid ∧ c.reader = .dispatching d := by
  unfold names at h
  split at h
  · split at h
    · next hr =>
      cases List.mem_singleton.mp h
      exact ⟨rfl, hr⟩
    · cases h
  · cases h

theorem mem_signals (h : .performed d ∈ c.signals action) : c.performs action = some d := by
  rcases mem_append.mp h with hp | hr
  · obtain ⟨n, hn, hd⟩ := Option.map_eq_some_iff.mp (Option.mem_toList.mp hp)
    cases hd
    exact hn
  · rcases mem_append.mp hr with hw | hfl
    · split at hw
      · cases hw
      · cases List.mem_singleton.mp hw
    · obtain ⟨_, -, hne⟩ := mem_map.mp hfl
      cases hne

/-- What a step performs has been dispatched. -/
theorem Step.performed (hst : c.Step limit action c') (h : c.Sound)
    (hp : c.performs action = some d) : ∃ job', c'.jobs[d]? = some job' := by
  cases hst with
  | @admits message isAsync at_ =>
    cases isAsync with
    | true => cases hp
    | false =>
      rw [performs, at_] at hp
      obtain ⟨r, hr, hd⟩ := Option.map_eq_some_iff.mp hp
      have hev : (admitMessage c.session message).1 = .dispatch r := by
        cases hev : (admitMessage c.session message).1 with
        | dispatch request =>
          rw [hev] at hr
          cases hr
          rfl
        | _ =>
          rw [hev] at hr
          cases hr
      rw [← hd]
      exact ⟨_, getElem?_admitSection false hev⟩
  | @spawns number at_ =>
    rw [performs, at_] at hp
    obtain rfl := Option.some.inj hp
    obtain ⟨job, hj, -⟩ := h.seated.starting number (by rw [at_]; rfl)
    rw [getElem?_onJob, if_pos rfl, hj]
    exact ⟨_, rfl⟩
  | _ => cases hp

/-- A request is known by its key while the generations last. -/
theorem Numbered.eq_of_key {n : Nat} (hn : c.Numbered) (hj : c.jobs[d]? = some job)
    (hj' : c.jobs[n]? = some job') (hk : job.request.key = job'.request.key) : d = n := by
  rcases Nat.lt_trichotomy d n with hlt | heq | hlt
  · have hl := hn.increasing d n job job' hj hj' hlt
    rw [hk] at hl
    exact absurd hl (Nat.lt_irrefl _)
  · exact heq
  · have hl := hn.increasing n d job' job hj' hj hlt
    rw [hk] at hl
    exact absurd hl (Nat.lt_irrefl _)

end Conn

/-! ### A read in flight -/

/-- A step of the observed connection, computed. -/
def Observed.next (config : ServerConfig) (o : Observed) (action : Conn.Action) : Option Observed :=
  (o.conn.next config.maxAsyncRequests action).map (o.after action)

/-- The steps of a message that the reader performs and answers itself. -/
def performing (message : TMessage) (number : Nat) (result : Result ServerCompletion) :
    List Conn.Action :=
  [.reads message, .admits false] ++ Conn.replying number result

/-- A client attaches to a file, opens it and reads it, with the read left to a worker. -/
def reading : List Conn.Action :=
  Conn.greeting 8192 ++
  performing (.attach 1 0 NOFID [] []) 0 (.ok (.attach ⟨0, 0, 1⟩)) ++
  performing (.open 1 0 0) 1 (.ok (.open ⟨⟨0, 0, 1⟩, 0⟩)) ++
  Conn.spawning (.read 1 0 0 100) (some 0)

theorem Observed.step_of_next {o' : Observed} (h : o.next config action = some o') :
    (observed config).step o action o' := by
  obtain ⟨c', hn, rfl⟩ := Option.map_eq_some_iff.mp h
  exact ⟨c', Conn.step_of_next hn, rfl⟩

/-- The read is in flight when a message arrives. -/
def interrupted (message : TMessage) : Option Observed :=
  (reading ++ [Conn.Action.reads message]).foldlM (Observed.next .default) ⟨.new .default, [], []⟩

theorem run_interrupted {message : TMessage} (h : interrupted message = some o) :
    ∃ history, (observed .default).Run history o :=
  ⟨_, .foldlM (M := observed .default) (.start rfl) (fun _ _ _ _ hn => Observed.step_of_next hn) h⟩

/-- The message is about to be admitted, and the worker of the read is busy. -/
def Observed.Faces (o : Observed) (message : TMessage) (request : ServerRequest) : Prop :=
  o.conn.reader = .admitting message ∧
    (admitMessage o.conn.session message).1 = .dispatch request ∧
    o.conn.generations < 2 ^ 64 ∧ (2, some 0) ∈ o.named ∧
    o.conn.jobs.map (fun job => (job.worker, job.cleared)) =
      [(false, false), (false, false), (true, false)]

instance (message : TMessage) (request : ServerRequest) :
    DecidablePred (Observed.Faces · message request) :=
  fun _ => inferInstanceAs (Decidable (_ ∧ _ ∧ _ ∧ _ ∧ _))

theorem Observed.Faces.busy {message : TMessage} {request : ServerRequest}
    (h : o.Faces message request) : o.conn.jobs.length = 3 ∧
      ∃ job, o.conn.jobs[2]? = some job ∧ job.worker = true ∧ job.cleared = false := by
  obtain ⟨-, -, -, -, hjb⟩ := h
  constructor
  · rw [← List.length_map, hjb]
    rfl
  · have hj := congrArg (·[2]?) hjb
    rw [List.getElem?_map] at hj
    obtain ⟨job, hj, heq⟩ := Option.map_eq_some_iff.mp hj
    exact ⟨job, hj, congrArg Prod.fst heq, congrArg Prod.snd heq⟩

/-! ### Every run -/

/-- The handler was woken after the flag of the request went up. -/
def Told (d : Nat) (signals : List Signal) : Prop :=
  ∃ newer older, signals = newer ++ .woken :: older ∧ .cancelled d ∈ older

/-- A worker has its entry in the map until its flag is up; the handler hears of every flag,
and nothing is performed before it is dispatched. -/
structure Observed.Watched (o : Observed) : Prop where
  below : ∀ d fid, (d, fid) ∈ o.named → ∃ job, o.conn.jobs[d]? = some job
  fresh : ∀ d fid, o.conn.reader = .dispatching d → (d, fid) ∉ o.named
  kept : ∀ (d : Nat) (fid : Option Fid) (job : Job), (d, fid) ∈ o.named →
    o.conn.jobs[d]? = some job → o.conn.Worked d job →
      job.cancel = true ∨ (job.request.key, ⟨fid, d⟩) ∈ o.conn.pending
  told : ∀ (d : Nat) (job : Job), o.conn.jobs[d]? = some job → job.cancel = true →
    Told d o.signals
  begun : ∀ d, .performed d ∈ o.signals → ∃ job, o.conn.jobs[d]? = some job

namespace Observed.Watched

/-- The handler is woken behind the flag and before anything that the step performs. -/
theorem told_before (h : o.Watched) (hs : o.conn.Sound) (hst : o.conn.Step limit action c')
    (hj' : c'.jobs[d]? = some job') (hc : job'.cancel = true) :
    ∃ newer older, (o.after action c').signals = newer ++ .woken :: older ∧
      .cancelled d ∈ older ∧ ∀ n, .performed n ∈ older → .performed n ∈ o.signals := by
  rcases hst.before hs hj' with ⟨job, hj⟩ | hbg
  · obtain ⟨job₁, hj₁, hf⟩ := hst.follows hs hj
    rw [hj', Option.some.injEq] at hj₁
    rw [← hj₁] at hf
    rw [hf.cancel, Bool.or_eq_true] at hc
    rcases hc with hb | hnw
    · obtain ⟨newer, older, hsg, hm⟩ := h.told d job hj hb
      refine ⟨o.conn.signals action ++ newer, older, ?_, hm, fun n hn => ?_⟩
      · rw [Observed.after, hsg, List.append_assoc]
      · rw [hsg]
        exact List.mem_append_right _ (List.mem_cons_of_mem _ hn)
    · obtain ⟨entry, he, hnm⟩ := List.any_eq_true.mp hnw
      have hsm : (o.conn.cancels action).isEmpty = false := by
        cases hcn : o.conn.cancels action with
        | nil =>
          rw [hcn] at he
          cases he
        | cons first rest => rfl
      refine ⟨((o.conn.performs action).map .performed).toList,
        (o.conn.cancels action).map (fun entry => .cancelled entry.2.cancel) ++ o.signals, ?_, ?_,
        fun n hn => ?_⟩
      · simp [Observed.after, Conn.signals, hsm]
      · apply List.mem_append_left
        exact mem_map.mpr ⟨entry, he, by rw [of_decide_eq_true hnm]⟩
      · rcases mem_append.mp hn with hfl | ho
        · obtain ⟨_, -, hne⟩ := mem_map.mp hfl
          cases hne
        · exact ho
  · rw [hbg.cancel_eq hj'] at hc
    cases hc

theorem kept_step (h : o.Watched) (hs : o.conn.Sound) (hn : o.conn.Numbered)
    (hst : o.conn.Step limit action c') (hnm : (d, fid) ∈ o.named)
    (hj' : c'.jobs[d]? = some job') (hwr : c'.Worked d job') :
    job'.cancel = true ∨ (job'.request.key, ⟨fid, d⟩) ∈ c'.pending := by
  obtain ⟨job, hj⟩ := h.below d fid hnm
  obtain ⟨job₁, hj₁, hf⟩ := hst.follows hs hj
  rw [hj', Option.some.injEq] at hj₁
  rw [← hj₁] at hf
  have hnt : o.conn.reader ≠ .dispatching d := fun hr => h.fresh d fid hr hnm
  have hb : o.conn.Worked d job := (hf.worked hwr).resolve_right hnt
  rw [hf.cancel, hf.request]
  rcases h.kept d fid job hnm hj hb with hc | he
  · exact .inl (by rw [hc, Bool.true_or])
  · rcases hst.entry hs he with hkp | hcn | ⟨n, job₂, job₃, hj₂, hk, hj₃, hg⟩
    · exact .inr hkp
    · left
      rw [Bool.or_eq_true]
      exact .inr (List.any_eq_true.mpr ⟨_, hcn, decide_eq_true rfl⟩)
    · -- The key belongs to this request alone, whose worker is still there.
      have heq := hn.eq_of_key hj₂ hj hk
      rw [heq, hj', Option.some.injEq] at hj₃
      rw [heq, ← hj₃] at hg
      exact absurd (hg hwr) hnt

/-- A request that is registered gets its entry, or no worker. -/
theorem registered (hs : c.Sound) (hst : c.Step limit action c')
    (hns : (d, fid) ∈ c.names action) (hj' : c'.jobs[d]? = some job')
    (hwr : c'.Worked d job') : (job'.request.key, ⟨fid, d⟩) ∈ c'.pending := by
  obtain ⟨rfl, hr⟩ := Conn.mem_names hns
  cases hst with
  | @registers number job _ at_ dispatched =>
    cases at_.symm.trans hr
    obtain ⟨-, hw⟩ := hs.seated.start (by rw [at_]; rfl) dispatched
    unfold Conn.registerSection at hj' hwr ⊢
    split
    · next hf =>
      rw [if_pos hf] at hj' hwr
      rw [Conn.setStage, Conn.getElem?_onJob, if_pos rfl, dispatched] at hj'
      cases hj'
      rcases hwr with hsp | ⟨hy, -⟩
      · cases hsp
      · rw [hw] at hy
        cases hy
    · next hrm =>
      rw [if_neg hrm, dispatched] at hj'
      cases hj'
      exact List.mem_cons_self

theorem step (h : o.Watched) (hs : o.conn.Sound) (hn : o.conn.Numbered)
    (hst : o.conn.Step limit action c') : (o.after action c').Watched where
  below := by
    intro d fid hnm
    have hb : ∃ job, o.conn.jobs[d]? = some job := by
      rcases mem_append.mp hnm with hnw | ho
      · obtain ⟨-, hr⟩ := Conn.mem_names hnw
        obtain ⟨job, hj, -⟩ := hs.seated.starting d (by rw [hr]; rfl)
        exact ⟨job, hj⟩
      · exact h.below d fid ho
    obtain ⟨job, hj⟩ := hb
    obtain ⟨job', hj', -⟩ := hst.follows hs hj
    exact ⟨job', hj'⟩
  fresh := by
    intro d fid hr hnm
    rcases hst.dispatching hs hr with hnn | ⟨hb, hns⟩
    · rcases mem_append.mp hnm with hnw | ho
      · obtain ⟨-, hat⟩ := Conn.mem_names hnw
        obtain ⟨job, hj, -⟩ := hs.seated.starting d (by rw [hat]; rfl)
        cases hnn.symm.trans hj
      · obtain ⟨job, hj⟩ := h.below d fid ho
        cases hnn.symm.trans hj
    · rcases mem_append.mp hnm with hnw | ho
      · rw [hns] at hnw
        cases hnw
      · exact h.fresh d fid hb ho
  kept := by
    intro d fid job' hnm hj' hwr
    rcases mem_append.mp hnm with hnw | ho
    · exact .inr (registered hs hst hnw hj' hwr)
    · exact h.kept_step hs hn hst ho hj' hwr
  told := by
    intro d job' hj' hc
    obtain ⟨newer, older, hsg, hm, -⟩ := h.told_before hs hst hj' hc
    exact ⟨newer, older, hsg, hm⟩
  begun := by
    intro d hp
    rcases mem_append.mp hp with hnw | ho
    · exact hst.performed hs (Conn.mem_signals hnw)
    · obtain ⟨job, hj⟩ := h.begun d ho
      obtain ⟨job', hj', -⟩ := hst.follows hs hj
      exact ⟨job', hj'⟩

end Observed.Watched

/-- While the generations last, every worker can be cancelled. -/
theorem watched (run : (observed config).Run history o) (hg : o.conn.generations < 2 ^ 64) :
    o.Watched := by
  revert hg
  apply run.invariant (I := fun _ o => o.conn.generations < 2 ^ 64 → o.Watched)
  · intro o ho _
    rw [ho]
    constructor
    · intro d fid hnm
      cases hnm
    · intro d fid _ hnm
      cases hnm
    · intro d fid job hnm
      cases hnm
    · intro d job hj
      cases hj
    · intro d hp
      cases hp
  · rintro history o action _ hr ih ⟨c', hst, rfl⟩ hg
    have hl := Nat.lt_of_le_of_lt hst.generations_le hg
    exact (ih hl).step (Conn.sound (run_observed hr)) (Conn.numbered (run_observed hr) hl)
      hst

/-- While the generations last, a clunk raises the flags of all workers on its fid and wakes the
handler before the clunk is performed. -/
theorem clunk_cancels {o' : Observed} (run : (observed config).Run history o)
    (hgen : o.conn.generations < 2 ^ 64) {tag : Tag} {f : Fid} {request : ServerRequest}
    (at_ : o.conn.reader = .admitting (.clunk tag f))
    (hevent : (admitMessage o.conn.session (.clunk tag f)).1 = .dispatch request) {isAsync : Bool}
    (hstep : (observed config).step o (.admits isAsync) o')
    (hnamed : (d, some f) ∈ o.named) (hjob : o.conn.jobs[d]? = some job)
    (hworker : job.worker = true) (hbusy : job.cleared = false) :
    (∃ clunk, o'.conn.jobs[o.conn.jobs.length]? = some clunk ∧ clunk.request = request) ∧
    (∃ job', o'.conn.jobs[d]? = some job' ∧ job'.cancel = true) ∧
    ∃ newer older, o'.signals = newer ++ .woken :: older ∧ .cancelled d ∈ older ∧
      .performed o.conn.jobs.length ∉ older := by
  obtain ⟨c', hstep, rfl⟩ := hstep
  have hs := Conn.sound (run_observed run)
  have hw := watched run hgen
  obtain ⟨job', hjob', hf⟩ := hstep.follows hs hjob
  have hcn : o.conn.cancels (.admits isAsync) = o.conn.pending.filter (·.2.fid = some f) := by
    rw [Conn.cancels, at_]
    dsimp only
    have ha := hs.admission at_
    rw [hevent] at ha ⊢
    cases ha with
    | dispatched begins permits acquires =>
      obtain ⟨st, -, rfl⟩ := permits
      rfl
  have hc : job'.cancel = true := by
    rw [hf.cancel, Bool.or_eq_true]
    rcases hw.kept d (some f) job hnamed hjob (.inr ⟨hworker, hbusy⟩) with hb | he
    · exact .inl hb
    · right
      rw [hcn]
      exact List.any_eq_true.mpr
        ⟨_, mem_filter.mpr ⟨he, decide_eq_true rfl⟩, decide_eq_true rfl⟩
  obtain ⟨newer, older, hsg, hm, holder⟩ := hw.told_before hs hstep hjob' hc
  refine ⟨?_, ⟨job', hjob', hc⟩, newer, older, hsg, hm, fun hp => ?_⟩
  · cases hstep with
    | admits _ hat =>
      cases hat.symm.trans at_
      exact ⟨_, Conn.getElem?_admitSection isAsync hevent, rfl⟩
  · obtain ⟨clunk, hcl⟩ := hw.begun _ (holder _ hp)
    exact absurd (List.getElem?_eq_some_iff.mp hcl).1 (Nat.lt_irrefl _)

theorem clunk_cancels_reading : ∃ history o o' job', (observed .default).Run history o ∧
    o.conn.reader = .admitting (.clunk 2 0) ∧ (observed .default).step o (.admits false) o' ∧
    o'.conn.jobs[2]? = some job' ∧ job'.cancel = true ∧
    ∃ newer older, o'.signals = newer ++ .woken :: older ∧ .cancelled 2 ∈ older ∧
      .performed 3 ∉ older := by
  have hv : (interrupted (.clunk 2 0)).map
      (fun o => decide (o.Faces (.clunk 2 0) ⟨⟨2, 5⟩, .clunk 0 ⟨0, 0, 1⟩⟩)) = some true := by
    decide +kernel
  obtain ⟨o, ho, hv⟩ := Option.map_eq_some_iff.mp hv
  obtain ⟨history, run⟩ := run_interrupted ho
  have hf := of_decide_eq_true hv
  obtain ⟨hl, job, hj, hw, hb⟩ := hf.busy
  obtain ⟨at_, hev, hg, hnm, -⟩ := hf
  have hst : (observed .default).step o (.admits false) _ := ⟨_, .admits false at_, rfl⟩
  obtain ⟨-, ⟨job', hj', hc⟩, ht⟩ :=
    clunk_cancels run hg at_ hev hst hnm hj hw hb
  rw [hl] at ht
  exact ⟨history, o, _, job', run, at_, hst, hj', hc, ht⟩

/-- A remove takes the fid from under a read whose worker is neither told nor woken before the
remove is performed. -/
theorem remove_leaves_reading : ∃ history o o' request job job',
    (observed .default).Run history o ∧ o.conn.generations < 2 ^ 64 ∧
    o.conn.reader = .admitting (.remove 2 0) ∧
    (admitMessage o.conn.session (.remove 2 0)).1 = .dispatch request ∧
    (observed .default).step o (.admits false) o' ∧ (2, some 0) ∈ o.named ∧
    o.conn.jobs[2]? = some job ∧ job.worker = true ∧ job.cleared = false ∧
    o'.conn.jobs[2]? = some job' ∧ job'.cancel = false ∧
    .performed 3 ∈ o'.signals ∧ .woken ∉ o'.signals := by
  have hv : (interrupted (.remove 2 0)).map (fun o => decide
      (o.Faces (.remove 2 0) ⟨⟨2, 5⟩, .remove 0 ⟨0, 0, 1⟩⟩ ∧
        (o.conn.admitSection (.remove 2 0) false).jobs[2]?.map Job.cancel = some false ∧
        .performed 3 ∈ o.conn.signals (.admits false) ++ o.signals ∧
        .woken ∉ o.conn.signals (.admits false) ++ o.signals)) = some true := by
    decide +kernel
  obtain ⟨o, ho, hv⟩ := Option.map_eq_some_iff.mp hv
  obtain ⟨history, run⟩ := run_interrupted ho
  obtain ⟨hf, ha, hp, hs⟩ := of_decide_eq_true hv
  obtain ⟨hl, job, hj, hw, hb⟩ := hf.busy
  obtain ⟨at_, hev, hg, hnm, -⟩ := hf
  obtain ⟨job', hj', hc⟩ := Option.map_eq_some_iff.mp ha
  exact ⟨history, o, _, _, job, job', run, hg, at_, hev, ⟨_, .admits false at_, rfl⟩, hnm,
    hj, hw, hb, hj', hc, hp, hs⟩

end R9P.Connection
