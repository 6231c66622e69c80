import R9P.Connection.Threads

/-!
# What a step of a connection can do

Library `Connection`. `Sound` collects what holds in every state a connection reaches: who
has a request and who has the writer, and that the session is well formed except between
the two halves of a reset. Behind it stands what a step can do to the session, to a request
and to the stream; the statements about the replies on the stream are read off from this.
-/

namespace R9P.Connection
open Base Wire Server

namespace Reader

/-- The requests of the session are gone and its fids are not, or it is not used any more. -/
def stale : Reader → Bool
  | draining _ | resetting (.close _) | closed _ => true
  | admitting message => message.messageType = TVERSION
  | _ => false

/-- It goes on with an answer, with a request or with the next message. -/
def working : Reader → Bool
  | reading | replyLocked .. | replySized .. | spawning _ | unspawned .. | unregistered ..
  | serving _ => true
  | _ => false

/-- What the reader is about to answer itself. -/
def origin : Reader → Option Origin
  | replying origin _ | replyLocked origin _ | replySized origin _ _ => some origin
  | _ => none

theorem not_stale_of_attends {r : Reader} {d : Nat} (h : r.attends = some d) : r.stale = false := by
  cases r with
  | _ => first | rfl | cases h

theorem stale_of_ended {r : Reader} (h : r.ended.isSome = true) : r.stale = true := by
  cases r with
  | resetting next | draining next => cases next <;> first | rfl | cases h
  | _ => first | rfl | cases h

end Reader

namespace Conn

variable {config : ServerConfig} {limit : Nat} {history : List Action} {c c' : Conn}
  {action : Action} {d n : Nat} {job job' : Job} {key : RequestKey} {m : TMessage}

/-! ### Every state a connection reaches -/

structure Sound (c : Conn) : Prop where
  seated : c.Seated
  exclusive : c.Exclusive
  wf : c.reader.stale = false → c.session.WF
  versions : ∀ m, c.reader = .resetting (.proceed m) ∨ c.reader = .draining (.proceed m) →
    m.messageType = TVERSION

theorem sound_new (config : ServerConfig) : (new config).Sound where
  seated := by
    constructor
    · nofun
    · nofun
    all_goals
      intro d job hj
      cases hj
  exclusive := by
    constructor
    · intro d
      exact ⟨nofun, nofun⟩
    · exact ⟨nofun, nofun⟩
  wf _ := Session.wf_new config
  versions := by
    intro m hm
    rcases hm with hm | hm
    all_goals cases hm

theorem Sound.admission (h : c.Sound) (at_ : c.reader = .admitting m) :
    c.session.Admission m (admitMessage c.session m).1 (admitMessage c.session m).2 := by
  by_cases hm : m.messageType = TVERSION
  · exact Session.admission_version hm
  · apply Session.WF.admission
    apply h.wf
    rw [at_]
    exact decide_eq_false hm

/-- The session behind an admission is well formed again. -/
theorem Sound.wf_admitted (h : c.Sound) (at_ : c.reader = .admitting m) :
    (admitMessage c.session m).2.WF := by
  have ha := h.admission at_
  by_cases hm : m.messageType = TVERSION
  · exact (ha.version_resets hm).1
  · apply ha.wf
    apply h.wf
    rw [at_]
    exact decide_eq_false hm

/-- The steps that touch the session. -/
theorem Step.session_cases (hs : c.Step limit action c') :
    (c'.session = c.session ∧ c'.generations = c.generations) ∨
      (∃ next, c.reader = .resetting next ∧ c' = c.resetSection next) ∨
      (∃ m isAsync, c.reader = .admitting m ∧ c' = c.admitSection m isAsync) ∨
      ∃ (n : Nat) (job : Job) (result : Result ServerCompletion), c.jobs[n]? = some job ∧
        job.stage = .locked result ∧ c' = c.completeSection n job.request result := by
  cases hs with
  | resets at_ => exact .inr (.inl ⟨_, at_, rfl⟩)
  | admits isAsync at_ => exact .inr (.inr (.inl ⟨_, isAsync, at_, rfl⟩))
  | completes number dispatched stage =>
    exact .inr (.inr (.inr ⟨number, _, _, dispatched, stage, rfl⟩))
  | registers fid at_ dispatched =>
    left
    unfold registerSection
    split
    all_goals exact ⟨rfl, rfl⟩
  | _ => exact .inl ⟨rfl, rfl⟩

/-- Where a step takes the reader. -/
inductive Turns (c c' : Conn) : Reader → Prop
  | stays (active : c'.active ⊆ c.active) : Turns c c' c.reader
  | reads {m : TMessage} (at_ : c.reader = .reading) (ordinary : m.messageType ≠ TVERSION) :
      Turns c c' (.admitting m)
  | restarts {m : TMessage} (at_ : c.reader = .reading) (version : m.messageType = TVERSION) :
      Turns c c' (.resetting (.proceed m))
  | resets {next : Next} (at_ : c.reader = .resetting next) : Turns c c' (.draining next)
  | proceeds {m : TMessage} (at_ : c.reader = .draining (.proceed m)) (idle : c'.active = []) :
      Turns c c' (.admitting m)
  | closes {result : Result Unit} : Turns c c' (.resetting (.close result))
  | ends {result : Result Unit} : Turns c c' (.closed result)
  | admits {m : TMessage} {isAsync : Bool} {r : Reader} (at_ : c.reader = .admitting m)
      (admitted : c' = c.admitSection m isAsync)
      (taken : r.origin.isSome = true ∨ r.attends = some c.jobs.length) : Turns c c' r
  | works {r : Reader} (usable : c.reader.stale = false) (working : r.working = true)
      (origin : r.origin = none ∨ r.origin = c.reader.origin) : Turns c c' r

section
variable (hs : c.Step limit action c') (h : c.Sound)
include hs h

theorem Step.turns : Turns c c' c'.reader := by
  have hrs {c' : Conn} {outcome : Result Unit} (hu : c.reader.stale = false) :
      Turns c c' (.resume outcome) := by
    cases outcome with
    | ok _ => exact .works hu rfl (.inl rfl)
    | error e => exact .closes
  cases hs with
  | reads message at_ =>
    split
    · next hv => exact .restarts at_ hv
    · next hv => exact .reads at_ hv
  | hangsUp result at_ => exact .closes
  | resets at_ => exact .resets at_
  | @drains next ha at_ idle =>
    cases next with
    | close result => cases result <;> exact .ends
    | proceed message =>
      cases ha with
      | ok _ => exact .proceeds at_ idle
      | error e => exact .closes
  | @admits message isAsync at_ =>
    have ht := takes_admitSection isAsync (h.admission at_)
    refine .admits at_ rfl ?_
    generalize (admitMessage c.session message).1 = event at ht
    generalize c.admitSection message isAsync = c' at ht ⊢
    cases ht with
    | version same reader | flush flagged reader | other ordinary same reader =>
      rw [reader]; exact .inl rfl
    | dispatch isAsync flagged appended reader =>
      rw [reader]
      cases isAsync <;> exact .inr rfl
  | takesWriter at_ free | sizes at_ =>
    exact .works (by rw [at_]; rfl) rfl (.inr (by rw [at_]; rfl))
  | sends io at_ => exact hrs (by rw [at_]; rfl)
  | registers fid at_ dispatched =>
    unfold registerSection
    split <;> exact .works (by rw [at_]; rfl) rfl (.inl rfl)
  | spawns at_ | failsToSpawn text at_ | unregisters at_ dispatched | unspawns at_ =>
    exact .works (by rw [at_]; rfl) rfl (.inl rfl)
  | @writes job reply msize number io dispatched stage =>
    rcases h.seated.placed number job dispatched (by rw [stage]; rfl) with ⟨hw, -⟩ | ⟨hw, hat⟩
    · rw [writeSection, hw]
      exact .stays fun _ => id
    · rw [writeSection, hw]
      exact hrs (Reader.not_stale_of_attends hat)
  | leaves => exact .stays fun _ => List.mem_of_mem_erase
  | returns | panics | locks | completes | clears => exact .stays fun _ => id

/-- Only an admission makes a session usable that was not. -/
theorem Step.not_stale_before (hst : c'.reader.stale = false) : c.reader.stale = false ∨
      ∃ m isAsync, c.reader = .admitting m ∧ c' = c.admitSection m isAsync := by
  have ht := hs.turns h
  generalize c'.reader = r at ht hst
  cases ht with
  | stays => exact .inl hst
  | reads at_ | restarts at_ => rw [at_]; exact .inl rfl
  | resets | closes | ends => cases hst
  | proceeds at_ => exact absurd (h.versions _ (.inr at_)) (of_decide_eq_false hst)
  | admits at_ admitted => exact .inr ⟨_, _, at_, admitted⟩
  | works usable => exact .inl usable

/-- Only a version request is admitted behind a reset. -/
theorem Step.versions
    (hm : c'.reader = .resetting (.proceed m) ∨ c'.reader = .draining (.proceed m)) :
    m.messageType = TVERSION := by
  have ht := hs.turns h
  generalize c'.reader = r at ht hm
  cases ht with
  | stays => exact h.versions m hm
  | reads | proceeds | closes | ends => rcases hm with hm | hm <;> cases hm
  | restarts at_ version =>
    rcases hm with hm | hm <;> cases hm
    exact version
  | resets at_ =>
    rcases hm with hm | hm <;> cases hm
    exact h.versions m (.inl at_)
  | works _ hr => rcases hm with rfl | rfl <;> cases hr
  | admits at_ admitted taken => rcases hm with rfl | rfl <;> rcases taken with hr | hr <;> cases hr

end

theorem Sound.step (h : c.Sound) (hs : c.Step limit action c') : c'.Sound where
  seated := h.seated.step (fun _ => h.admission) hs
  exclusive := h.exclusive.step h.seated (fun _ => h.admission) hs
  wf := by
    intro hst
    have ha {m : TMessage} {isAsync : Bool} (at_ : c.reader = .admitting m) :
        (c.admitSection m isAsync).session.WF := by
      rw [admitSection, (onEvent_frame _ _ _ _).1]
      exact h.wf_admitted at_
    rcases hs.session_cases with ⟨hsm, -⟩ | ⟨next, -, rfl⟩ | ⟨m, isAsync, at_, rfl⟩ |
      ⟨n, job, result, -, -, rfl⟩
    · rcases hs.not_stale_before h hst with hb | ⟨m, isAsync, at_, rfl⟩
      · rw [hsm]
        exact h.wf hb
      · exact ha at_
    · cases hst
    · exact ha at_
    · exact (c.session.completion job.request result).wf (h.wf hst)
  versions m := hs.versions h

/-- Every state a connection reaches is sound. -/
theorem sound (run : (connection config).Run history c) : c.Sound := by
  apply run.invariant (I := fun _ c => c.Sound)
  · intro c hc
    rw [hc]
    exact sound_new config
  · intro _ _ _ _ _ h hs
    exact h.step hs

/-! ### What a step does to a request -/

/-- A request moves on in its thread, or stays where it is; what was withdrawn stays so. -/
structure Job.Moves (s : Session) (job job' : Job) : Prop where
  request : job'.request = job.request
  stage : Stage.Moves s job.request job.stage job'.stage
  withdrawn : job.withdrawn = true → job'.withdrawn = true

private theorem moves_of_flagged {p : Job → Bool} (h : Flagged p c.jobs c'.jobs)
    (hj : c.jobs[d]? = some job) :
    ∃ job', c'.jobs[d]? = some job' ∧ Job.Moves c.session job job' := by
  obtain ⟨cancel, hjb⟩ := h
  refine ⟨job.flag (cancel d job) (p job), ?_, rfl, .stays, ?_⟩
  · rw [hjb, hj]
    rfl
  · intro hw
    simp [Job.flag, hw]

private theorem moves_of_modify {f : Job → Job} (hn : c.jobs[n]? = some job)
    (hjb : c'.jobs = c.jobs.modify n f) (hm : Job.Moves c.session job (f job))
    {job₀ : Job} (hj : c.jobs[d]? = some job₀) :
    ∃ job', c'.jobs[d]? = some job' ∧ Job.Moves c.session job₀ job' := by
  have hl : c'.jobs[d]? = if n = d then c.jobs[d]?.map f else c.jobs[d]? := by
    rw [hjb]
    exact getElem?_onJob
  by_cases hd : n = d
  · rw [hd, hj, Option.some.injEq] at hn
    rw [hl, if_pos hd, hj, hn]
    exact ⟨_, rfl, hm⟩
  · rw [hl, if_neg hd]
    exact ⟨job₀, hj, rfl, .stays, id⟩

/-- What a step does to the requests. One with its reply in hand moves in its own write only. -/
inductive Reworks (c c' : Conn) (action : Action) : Prop
  | flags {p : Job → Bool} (flagged : Flagged p c.jobs c'.jobs)
  | modifies {n : Nat} {job : Job} {f : Job → Job} (dispatched : c.jobs[n]? = some job)
      (modified : c'.jobs = c.jobs.modify n f) (moves : Job.Moves c.session job (f job))
      (own : (∃ io, action = .writes n io) ∨ ∀ reply msize, job.stage ≠ .completed reply msize)
  | appends {m : TMessage} {isAsync : Bool} {new : Job} {kept : List Job}
      (at_ : c.reader = .admitting m) (admitted : c' = c.admitSection m isAsync)
      (dispatched : (admitMessage c.session m).1 = .dispatch new.request)
      (flagged : Flagged (fun _ => false) c.jobs kept) (appended : c'.jobs = kept ++ [new])
      (early : new.stage.early = true) (withdrawn : new.withdrawn = false)

theorem Step.reworks (hs : c.Step limit action c') (h : c.Sound) : Reworks c c' action := by
  cases hs with
  | resets at_ => exact .flags ((flagged_raise _).withdraw fun _ _ => rfl)
  | @admits message isAsync at_ =>
    have ht := takes_admitSection isAsync (h.admission at_)
    generalize he : (admitMessage c.session message).1 = event at ht
    generalize hc' : c.admitSection message isAsync = c' at ht ⊢
    cases ht with
    | version same reader | other ordinary same reader => exact .flags (flagged_of_eq same)
    | flush flagged reader => exact .flags flagged
    | dispatch isAsync' flagged appended reader =>
      exact .appends at_ hc'.symm he flagged appended (by cases isAsync' <;> rfl) rfl
  | @registers number job fid at_ dispatched =>
    obtain ⟨hst, -⟩ := h.seated.start (by rw [at_]; rfl) dispatched
    unfold registerSection
    split
    · exact .modifies dispatched rfl ⟨rfl, .advances (by rw [hst]; rfl) rfl, id⟩
        (.inr (by rw [hst]; nofun))
    · exact .flags (flagged_of_eq rfl)
  | @spawns number at_ | @unspawns number text at_ =>
    obtain ⟨job, hn, hst, -⟩ := h.seated.starting number (by rw [at_]; rfl)
    exact .modifies hn rfl ⟨rfl, .advances (by rw [hst]; rfl) rfl, id⟩ (.inr (by rw [hst]; nofun))
  | returns number result dispatched stage | locks number dispatched stage free =>
    exact .modifies dispatched rfl ⟨rfl, .advances (by rw [stage]; rfl) rfl, id⟩
      (.inr (by rw [stage]; nofun))
  | panics number dispatched stage worker =>
    exact .modifies dispatched rfl ⟨rfl, .panics (by rw [stage]; rfl), id⟩
      (.inr (by rw [stage]; nofun))
  | completes number dispatched stage =>
    exact .modifies dispatched rfl ⟨rfl, by rw [stage]; exact .completes _ _, id⟩
      (.inr (by rw [stage]; nofun))
  | writes number io dispatched stage =>
    exact .modifies dispatched rfl ⟨rfl, by rw [stage]; exact .finishes _ _ _, id⟩ (.inl ⟨io, rfl⟩)
  | clears number dispatched worker ended cleared =>
    refine .modifies dispatched rfl ⟨rfl, .stays, id⟩ (.inr fun reply msize hs => ?_)
    rw [hs] at ended
    cases ended
  | _ => exact .flags (flagged_of_eq rfl)

theorem Step.moves (hs : c.Step limit action c') (h : c.Sound) (hj : c.jobs[d]? = some job) :
    ∃ job', c'.jobs[d]? = some job' ∧ Job.Moves c.session job job' := by
  cases hs.reworks h with
  | flags flagged => exact moves_of_flagged flagged hj
  | modifies dispatched modified moves => exact moves_of_modify dispatched modified moves hj
  | @appends m isAsync new kept at_ admitted dispatched flagged appended =>
    have hk : Flagged (fun _ => false) c.jobs { c with jobs := kept }.jobs := flagged
    obtain ⟨job', hj', hm⟩ := moves_of_flagged hk hj
    refine ⟨job', ?_, hm⟩
    rw [appended]
    exact (List.getElem?_append_left (List.getElem?_eq_some_iff.mp hj').1).trans hj'

/-- A request that was not there before has just been dispatched. -/
structure Begun (c c' : Conn) (d : Nat) (job' : Job) : Prop where
  number : d = c.jobs.length
  admitted : ∃ m isAsync, c.reader = .admitting m ∧ c' = c.admitSection m isAsync ∧
    (admitMessage c.session m).1 = .dispatch job'.request
  early : job'.stage.early = true
  withdrawn : job'.withdrawn = false

private theorem before_of_flagged {p : Job → Bool} (h : Flagged p c.jobs c'.jobs)
    (hj' : c'.jobs[d]? = some job') : ∃ job, c.jobs[d]? = some job := by
  obtain ⟨cancel, hjb⟩ := h
  rw [hjb, Option.map_eq_some_iff] at hj'
  obtain ⟨job, hj, -⟩ := hj'
  exact ⟨job, hj⟩

private theorem before_of_modify {f : Job → Job} (hjb : c'.jobs = c.jobs.modify n f)
    (hj' : c'.jobs[d]? = some job') : ∃ job, c.jobs[d]? = some job := by
  have hl : c'.jobs[d]? = if n = d then c.jobs[d]?.map f else c.jobs[d]? := by
    rw [hjb]
    exact getElem?_onJob
  rw [hl] at hj'
  split at hj'
  · rw [Option.map_eq_some_iff] at hj'
    obtain ⟨job, hj, -⟩ := hj'
    exact ⟨job, hj⟩
  · exact ⟨job', hj'⟩

theorem Step.before (hs : c.Step limit action c') (h : c.Sound)
    (hj' : c'.jobs[d]? = some job') : (∃ job, c.jobs[d]? = some job) ∨ Begun c c' d job' := by
  cases hs.reworks h with
  | flags flagged => exact .inl (before_of_flagged flagged hj')
  | modifies dispatched modified => exact .inl (before_of_modify modified hj')
  | appends at_ admitted dispatched flagged appended early withdrawn =>
    rw [appended] at hj'
    rcases flagged.getElem?_append hj' with ⟨hd, rfl⟩ | ⟨job, cancel, hj, -⟩
    · exact .inr ⟨hd, ⟨_, _, at_, admitted, dispatched⟩, early, withdrawn⟩
    · exact .inl ⟨job, hj⟩

/-! ### What a step puts on the stream -/

/-- A step writes nothing, or the reply of a request, or a reply of the reader. -/
inductive Writes (c : Conn) : List Frame → Prop
  | nothing : Writes c c.written
  | reply {d : Nat} {job : Job} {reply : RMessage} {msize : UInt32}
      (dispatched : c.jobs[d]? = some job) (stage : job.stage = .completed (some reply) msize) :
      Writes c (⟨.job d, reply⟩ :: c.written)
  | answer {origin : Origin} {reply : RMessage} {msize : UInt32}
      (at_ : c.reader = .replySized origin reply msize) : Writes c (⟨origin, reply⟩ :: c.written)

theorem Step.written (hs : c.Step limit action c') : c.Writes c'.written := by
  cases hs with
  | @admits message isAsync at_ =>
    have hw : (c.admitSection message isAsync).written = c.written :=
      (onEvent_frame _ _ _ _).2.2.2.2
    rw [hw]
    exact .nothing
  | @sends origin reply msize io at_ =>
    change c.Writes (if writeRMessageChecked msize reply io = .ok () then _ else _)
    split
    · exact .answer at_
    · exact .nothing
  | registers fid at_ dispatched =>
    unfold registerSection
    split
    all_goals exact .nothing
  | @writes job reply msize number io dispatched stage =>
    change c.Writes (if writeOutcome reply msize io = .ok () then _ else _)
    split
    · cases reply with
      | none => exact .nothing
      | some reply => exact .reply dispatched stage
    · exact .nothing
  | _ => exact .nothing

/-- The reader takes up an answer only at an admission. -/
theorem Step.origin (hs : c.Step limit action c') (h : c.Sound) {o : Origin}
    (ho : c'.reader.origin = some o) : c.reader.origin = some o ∨
      ∃ m isAsync, c.reader = .admitting m ∧ c' = c.admitSection m isAsync := by
  have ht := hs.turns h
  generalize c'.reader = r at ht ho
  cases ht with
  | stays => exact .inl ho
  | admits at_ admitted => exact .inr ⟨_, _, at_, admitted⟩
  | works usable working origin =>
    rcases origin with hr | hr <;> rw [hr] at ho
    · cases ho
    · exact .inl ho
  | _ => cases ho

/-! ### While the generations last -/

/-- Later requests have larger generations, and the next one is larger still. -/
structure Numbered (c : Conn) : Prop where
  counted : c.session.requests.nextGeneration.toNat = c.generations
  older : ∀ (d : Nat) (job : Job), c.jobs[d]? = some job →
    job.request.key.generation.toNat < c.generations
  increasing : ∀ (d n : Nat) (job job' : Job), c.jobs[d]? = some job → c.jobs[n]? = some job' →
    d < n → job.request.key.generation.toNat < job'.request.key.generation.toNat

theorem Step.generations_le (hs : c.Step limit action c') : c.generations ≤ c'.generations := by
  rcases hs.session_cases with ⟨-, hsm⟩ | ⟨next, -, rfl⟩ | ⟨m, isAsync, -, rfl⟩ |
    ⟨n, job, result, -, -, rfl⟩
  · rw [hsm]
  · exact Nat.le_succ _
  · rw [admitSection, (onEvent_frame _ _ _ _).2.1]
    exact Nat.le_add_right _ _
  · exact Nat.le_refl _

theorem generations_admitSection (m : TMessage) (isAsync : Bool) :
    (c.admitSection m isAsync).generations =
      c.generations + (c.session.usesGeneration m).toNat := by
  rw [admitSection, (onEvent_frame _ _ _ _).2.1]

theorem session_admitSection (m : TMessage) (isAsync : Bool) :
    (c.admitSection m isAsync).session = (admitMessage c.session m).2 := by
  rw [admitSection, (onEvent_frame _ _ _ _).1]

-- The counter of the session keeps up with the number of generations used.
private theorem counted_step (hs : c.Step limit action c') (h : c.Sound)
    (hc : c.session.requests.nextGeneration.toNat = c.generations) (hg : c'.generations < 2 ^ 64) :
    c'.session.requests.nextGeneration.toNat = c'.generations := by
  have hsc (hlt : c.generations + 1 < 2 ^ 64) :
      (saturatingSucc c.session.requests.nextGeneration).toNat = c.generations + 1 := by
    rw [World.toNat_saturatingSucc, hc]
    rw [hc]
    exact hlt
  rcases hs.session_cases with ⟨hss, hsm⟩ | ⟨next, -, rfl⟩ | ⟨m, isAsync, at_, rfl⟩ |
    ⟨n, job, result, -, -, rfl⟩
  · rw [hss, hsm]
    exact hc
  · exact hsc hg
  · rw [session_admitSection, generations_admitSection, (h.admission at_).nextGeneration_eq]
    rw [generations_admitSection] at hg
    cases hu : c.session.usesGeneration m with
    | false => exact hc
    | true =>
      rw [hu] at hg
      exact hsc hg
  · change (complete c.session job.request result).2.requests.nextGeneration.toNat = _
    rw [(c.session.completion job.request result).nextGeneration_eq]
    exact hc

/-- A new request takes the generation that the session has counted up to. -/
theorem Begun.key_eq (hb : Begun c c' d job') (h : c.Sound) :
    ∃ m, job'.request.key = c.session.nextKey m ∧ c.generations < c'.generations := by
  obtain ⟨m, isAsync, at_, rfl, he⟩ := hb.admitted
  have ha := h.admission at_
  rw [he] at ha
  obtain ⟨hk, hu⟩ := World.dispatched_key ha
  refine ⟨m.tag, hk, ?_⟩
  rw [generations_admitSection, hu]
  exact Nat.lt_succ_self _

theorem Numbered.step (hn : c.Numbered) (hs : c.Step limit action c') (h : c.Sound)
    (hg : c'.generations < 2 ^ 64) : c'.Numbered := by
  have hmn := hs.generations_le
  -- A request after the step is an old one or has the generation counted up to.
  have hc (d : Nat) (job' : Job) (hj' : c'.jobs[d]? = some job') :
      (∃ job, c.jobs[d]? = some job ∧ job'.request = job.request) ∨
        d = c.jobs.length ∧ job'.request.key.generation.toNat = c.generations ∧
          c.generations < c'.generations := by
    rcases hs.before h hj' with ⟨job, hj⟩ | hb
    · left
      obtain ⟨job₁, hj₁, hm⟩ := hs.moves h hj
      rw [hj', Option.some.injEq] at hj₁
      rw [hj₁]
      exact ⟨job, hj, hm.request⟩
    · right
      obtain ⟨tag, hk, hlt⟩ := hb.key_eq h
      rw [hk]
      exact ⟨hb.number, hn.counted, hlt⟩
  constructor
  · exact counted_step hs h hn.counted hg
  · intro d job' hj'
    rcases hc d job' hj' with ⟨job, hj, heq⟩ | ⟨-, heq, hlt⟩
    · rw [heq]
      exact Nat.lt_of_lt_of_le (hn.older d job hj) hmn
    · rw [heq]
      exact hlt
  · intro d n job₁ job₂ hj₁ hj₂ hlt
    rcases hc d job₁ hj₁ with ⟨old₁, ho₁, heq₁⟩ | ⟨hd, -⟩
    · rw [heq₁]
      rcases hc n job₂ hj₂ with ⟨old₂, ho₂, heq₂⟩ | ⟨-, heq₂, -⟩
      · rw [heq₂]
        exact hn.increasing d n old₁ old₂ ho₁ ho₂ hlt
      · rw [heq₂]
        exact hn.older d old₁ ho₁
    · -- Nothing comes behind the new request.
      rcases hc n job₂ hj₂ with ⟨old₂, ho₂, -⟩ | ⟨hn', -⟩
      · have hlt' := (List.getElem?_eq_some_iff.mp ho₂).1
        omega
      · omega

theorem numbered (run : (connection config).Run history c) (hg : c.generations < 2 ^ 64) :
    c.Numbered := by
  revert hg
  apply run.invariant (I := fun _ c => c.generations < 2 ^ 64 → c.Numbered)
  · intro c hc _
    rw [hc]
    constructor
    · rfl
    · intro d job hj
      cases hj
    · intro d n job job' hj
      cases hj
  · intro _ c _ c' hr ih hs hg
    have hb := ih (Nat.lt_of_le_of_lt hs.generations_le hg)
    exact hb.step hs (sound hr) hg

/-- A key that has been handed out and is not live stays so. -/
theorem Step.dead (hs : c.Step limit action c') (h : c.Sound) (hn : c.Numbered)
    (hu : key.generation.toNat < c.generations) (dead : ¬ c.session.IsLive key) :
    ¬ c'.session.IsLive key := by
  rcases hs.session_cases with ⟨hss, -⟩ | ⟨next, -, rfl⟩ | ⟨m, isAsync, at_, rfl⟩ |
    ⟨n, job, result, -, -, rfl⟩
  · rwa [hss]
  · intro hl
    cases hl
  · rw [session_admitSection]
    have ha := h.admission at_
    by_cases hm : m.messageType = TVERSION
    · exact (ha.version_resets hm).2 key
    · intro hl
      apply dead
      apply ha.live_before (h.wf _) hl
      · intro r hnw hsm
        rw [hnw] at ha
        rw [hsm, (World.dispatched_key ha).1, Session.nextKey, hn.counted] at hu
        exact Nat.lt_irrefl _ hu
      · rw [at_]
        exact decide_eq_false hm
  · intro hl
    exact dead ((c.session.completion job.request result).live_before hl)

end Conn
end R9P.Connection
