import R9P.Connection.Loop

/-!
# Where the threads of a connection stand

Library `Connection`. `Stage.Moves` says how one step can move a request, and `Seated` which
thread has it: a request that is not over has a worker that is counted, or the reader, and
the writer has at most one user. `Seated` holds in every state a connection reaches.
-/

namespace R9P.Connection
open Base Wire Server

/-- The request that the reader still has to hand to a worker. -/
def Reader.starts : Reader → Option Nat
  | dispatching number | spawning number | unspawned number _ | unregistered number _ =>
    some number
  | _ => none

/-- The worker that the reader has counted. -/
def Reader.counts : Reader → Option Nat
  | spawning number | unspawned number _ | unregistered number _ => some number
  | _ => none

/-- How one step can move a request, with the session before it. -/
inductive Stage.Moves (s : Session) (r : ServerRequest) : Stage → Stage → Prop
  | stays {stage : Stage} : Moves s r stage stage
  | advances {stage stage' : Stage} (before : stage.early = true) (after : stage'.early = true) :
      Moves s r stage stage'
  | panics {stage : Stage} (before : stage.early = true) : Moves s r stage .panicked
  | completes (result : Result ServerCompletion) (msize : UInt32) :
      Moves s r (.locked result) (.completed (complete s r result).1 msize)
  | finishes (reply : Option RMessage) (msize : UInt32) (outcome : Result Unit) :
      Moves s r (.completed reply msize) (.finished reply outcome)

/-- A job with its cancellation flag set anew, and withdrawn if it is still open to that. -/
def Job.flag (job : Job) (cancel withdrawn : Bool) : Job :=
  { job with cancel := cancel, withdrawn := job.withdrawn || job.stage.early && withdrawn }

namespace Conn

variable {limit : Nat} {c c' : Conn} {action : Action} {d n : Nat} {job job' : Job}

/-! ### Looking up a job behind a change -/

variable {f : Job → Job}

theorem getElem?_onJob :
    (c.onJob n f).jobs[d]? = if n = d then c.jobs[d]?.map f else c.jobs[d]? := by
  rw [onJob, List.getElem?_modify]
  split
  · rfl
  · cases c.jobs[d]? <;> rfl

variable {jobs : List Job}

theorem getElem?_raise {entries : CancelMap} : (raise jobs entries)[d]? = jobs[d]?.map fun job =>
      { job with cancel := job.cancel || entries.any fun entry => entry.2.cancel = d } :=
  List.getElem?_mapIdx

variable {p : Job → Bool}

theorem getElem?_withdraw : (withdraw jobs p)[d]? = jobs[d]?.map fun job =>
      { job with withdrawn := job.withdrawn || job.stage.early && p job } :=
  List.getElem?_map

/-! ### What an admission does -/

/-- What `onEvent` leaves alone. -/
theorem onEvent_frame (c : Conn) (m : TMessage) (event : ServerEvent) (isAsync : Bool) :
    (c.onEvent m event isAsync).session = c.session ∧
      (c.onEvent m event isAsync).generations = c.generations ∧
      (c.onEvent m event isAsync).writer = c.writer ∧
      (c.onEvent m event isAsync).active = c.active ∧
      (c.onEvent m event isAsync).written = c.written := by
  unfold onEvent
  split
  · exact ⟨rfl, rfl, rfl, rfl, rfl⟩
  · exact ⟨rfl, rfl, rfl, rfl, rfl⟩
  · exact ⟨rfl, rfl, rfl, rfl, rfl⟩
  · split
    all_goals exact ⟨rfl, rfl, rfl, rfl, rfl⟩
  all_goals exact ⟨rfl, rfl, rfl, rfl, rfl⟩

/-- Only flags of the jobs have changed; those that meet the condition are withdrawn. -/
def Flagged (p : Job → Bool) (jobs jobs' : List Job) : Prop :=
  ∃ cancel : Nat → Job → Bool,
    ∀ d : Nat, jobs'[d]? = jobs[d]?.map fun job => job.flag (cancel d job) (p job)

/-- How an event changes the jobs and where it leaves the reader. -/
inductive Takes (jobs : List Job) : TMessage → ServerEvent → Conn → Prop
  | version {tag : Tag} {msize : UInt32} {version : Bytes} {reply : RMessage} {c' : Conn}
      (same : c'.jobs = jobs)
      (reader : c'.reader = .replying (.version jobs.length) reply) :
      Takes jobs (.version tag msize version) (.reply reply) c'
  | flush {tag oldtag : Tag} {reply : RMessage} {outcome : FlushOutcome} {c' : Conn}
      (flagged : Flagged (fun job => job.request.tag = oldtag) jobs c'.jobs)
      (reader : c'.reader = .replying (.flush oldtag jobs.length) reply) :
      Takes jobs (.flush tag oldtag) (.flush reply outcome) c'
  | dispatch {m : TMessage} {request : ServerRequest} {c' : Conn} {kept : List Job}
      (isAsync : Bool) (flagged : Flagged (fun _ => false) jobs kept)
      (appended : c'.jobs = kept ++
        [⟨request, false, if isAsync then .admitted else .performing, false, false, false⟩])
      (reader : c'.reader =
        if isAsync then .dispatching jobs.length else .serving jobs.length) :
      Takes jobs m (.dispatch request) c'
  | other {m : TMessage} {reply : RMessage} {c' : Conn} (ordinary : m.messageType ≠ TVERSION)
      (same : c'.jobs = jobs) (reader : c'.reader = .replying .other reply) :
      Takes jobs m (.reply reply) c'

theorem flagged_of_eq {jobs' : List Job} (h : jobs' = jobs) :
    Flagged (fun _ => false) jobs jobs' := by
  refine ⟨fun _ job => job.cancel, fun d => ?_⟩
  rw [h]
  cases jobs[d]? with
  | none => rfl
  | some job => simp [Job.flag]

theorem flagged_raise (entries : CancelMap) :
    Flagged (fun _ => false) c.jobs (raise c.jobs entries) := by
  refine ⟨fun d job => job.cancel || entries.any fun entry => entry.2.cancel = d, fun d => ?_⟩
  rw [getElem?_raise]
  cases c.jobs[d]? with
  | none => rfl
  | some job => simp [Job.flag]

theorem Flagged.withdraw (h : Flagged (fun _ => false) c.jobs jobs)
    (hp : ∀ job cancel, p (job.flag cancel false) = p job) :
    Flagged p c.jobs (withdraw jobs p) := by
  obtain ⟨cancel, hjb⟩ := h
  refine ⟨cancel, fun d => ?_⟩
  rw [getElem?_withdraw, hjb]
  cases c.jobs[d]? with
  | none => rfl
  | some job =>
    have hp := hp job (cancel d job)
    simp only [Option.map_some, hp]
    simp [Job.flag]

/-- Cancelling by fid changes flags at most. -/
theorem onEvent_dispatch (c : Conn) (m : TMessage) (request : ServerRequest) (isAsync : Bool) :
    ∃ kept pending, Flagged (fun _ => false) c.jobs kept ∧ c.onEvent m (.dispatch request) isAsync =
        { c with
          pending := pending
          jobs := kept ++
            [⟨request, false, if isAsync then .admitted else .performing, false, false, false⟩]
          reader := if isAsync then .dispatching c.jobs.length else .serving c.jobs.length } := by
  have he : c.onEvent m (.dispatch request) isAsync =
      c.onEvent (.clunk 0 0) (.dispatch request) isAsync := by cases m <;> rfl
  rw [he]
  unfold onEvent
  dsimp only
  split
  · exact ⟨_, _, flagged_raise _, rfl⟩
  · exact ⟨_, _, flagged_of_eq rfl, rfl⟩

/-- An event changes the jobs in one of these ways. -/
theorem takes_onEvent (c : Conn) {m : TMessage} {event : ServerEvent} (isAsync : Bool)
    {s s' : Session} (h : s.Admission m event s') :
    Takes c.jobs m event (c.onEvent m event isAsync) := by
  cases h with
  | version message reset answer => exact .version rfl rfl
  | rejected e uses =>
    have hm : m.messageType ≠ TVERSION := by
      intro hm
      cases m with
      | version => cases uses
      | _ => cases hm
    cases m with
    | version => cases uses
    | _ => exact .other hm rfl rfl
  | refused e begins =>
    have hm := begins.not_version
    cases m with
    | version => exact absurd rfl hm
    | _ => exact .other hm rfl rfl
  | @flushed tag oldtag outcome begins old found =>
    cases outcome with
    | cancelled key => exact .flush ((flagged_raise _).withdraw fun _ _ => rfl) rfl
    | unknown => exact .flush ((flagged_of_eq rfl).withdraw fun _ _ => rfl) rfl
  | dispatched begins permits acquires =>
    obtain ⟨kept, pending, hk, heq⟩ := c.onEvent_dispatch m _ isAsync
    rw [heq]
    exact .dispatch isAsync hk rfl rfl

theorem takes_admitSection {m : TMessage} (isAsync : Bool)
    (h : c.session.Admission m (admitMessage c.session m).1 (admitMessage c.session m).2) :
    Takes c.jobs m (admitMessage c.session m).1 (c.admitSection m isAsync) :=
  takes_onEvent
    { c with
      session := (admitMessage c.session m).2
      generations := c.generations + (c.session.usesGeneration m).toNat } isAsync h

/-! ### Which thread has a request -/

/-- A request that is not over has a counted worker, or the reader. -/
structure Seated (c : Conn) : Prop where
  starting : ∀ d : Nat, c.reader.starts = some d →
    ∃ job : Job, c.jobs[d]? = some job ∧ job.stage = .admitted ∧ job.worker = false
  counted : ∀ d : Nat, c.reader.counts = some d → d ∈ c.active
  placed : ∀ (d : Nat) (job : Job), c.jobs[d]? = some job → job.stage.ended = false →
    job.worker = true ∧ d ∈ c.active ∨ job.worker = false ∧ c.reader.attends = some d
  cleared : ∀ (d : Nat) (job : Job), c.jobs[d]? = some job → job.cleared = true →
    job.stage.ended = true

/-- The reader moves on from a place where it had no request. -/
theorem Seated.moves_on (h : c.Seated) (hb : c.reader.attends = none)
    (haf : c'.reader.attends = none) (hjb : Flagged p c.jobs c'.jobs)
    (ha : c'.active = c.active) : c'.Seated := by
  have hst : c'.reader.starts = none := by
    cases hr : c'.reader with
    | _ => first | rfl | (rw [hr] at haf; cases haf)
  have hcn : c'.reader.counts = none := by
    cases hr : c'.reader with
    | _ => first | rfl | (rw [hr] at haf; cases haf)
  obtain ⟨cancel, hjb⟩ := hjb
  constructor
  · intro d hd
    rw [hst] at hd
    cases hd
  · intro d hd
    rw [hcn] at hd
    cases hd
  · intro d job' hj' ho
    rw [hjb, Option.map_eq_some_iff] at hj'
    obtain ⟨job, hj, rfl⟩ := hj'
    rcases h.placed d job hj ho with hw | ⟨-, hat⟩
    · rw [ha]
      exact .inl hw
    · rw [hb] at hat
      cases hat
  · intro d job' hj' hc
    rw [hjb, Option.map_eq_some_iff] at hj'
    obtain ⟨job, hj, rfl⟩ := hj'
    exact h.cleared d job hj hc

-- A counted worker is one that the reader still has to spawn.
private theorem starts_of_counts {r : Reader} (h : r.counts = some d) : r.starts = some d := by
  cases r with
  | _ => first | exact h | cases h

/-- The reader keeps its request. -/
theorem Seated.keeps (h : c.Seated) (hjb : c'.jobs = c.jobs)
    (hst : c'.reader.starts = c.reader.starts) (han : c'.reader.attends = c.reader.attends)
    (hcn : ∀ d, c'.reader.counts = some d → d ∈ c'.active)
    (ha : ∀ d, d ∈ c.active → d ∈ c'.active) : c'.Seated := by
  constructor
  · intro d hd
    rw [hjb]
    exact h.starting d (hst ▸ hd)
  · exact hcn
  · intro d job hj ho
    rw [han]
    rcases h.placed d job (hjb ▸ hj) ho with ⟨hw, hd⟩ | hat
    · exact .inl ⟨hw, ha d hd⟩
    · exact .inr hat
  · intro d job hj
    exact h.cleared d job (hjb ▸ hj)

/-- One request moves, and the reader stays where it is or has that request. -/
theorem Seated.moves_job (h : c.Seated) (hj : c.jobs[n]? = some job)
    (hjb : c'.jobs = c.jobs.modify n f) (hrd : c'.reader = c.reader ∧ job.stage ≠ .admitted ∨
      c'.reader.starts = none ∧ c.reader.attends = some n)
    (ha : ∀ d, n ≠ d → d ∈ c.active → d ∈ c'.active)
    (hp : (f job).stage.ended = false → (f job).worker = true ∧ n ∈ c'.active ∨
      (f job).worker = false ∧ c'.reader.attends = some n)
    (hc : (f job).cleared = true → (f job).stage.ended = true) : c'.Seated := by
  have hl (d : Nat) : c'.jobs[d]? = if n = d then c.jobs[d]?.map f else c.jobs[d]? := by
    rw [hjb]
    exact getElem?_onJob
  have hsl : c'.jobs[n]? = some (f job) := by
    rw [hl, if_pos rfl, hj]
    rfl
  have hot (d : Nat) (hd : n ≠ d) : c'.jobs[d]? = c.jobs[d]? := by
    rw [hl, if_neg hd]
  -- What the reader still has to start is another request, and has not moved.
  have hst (d : Nat) (hd : c'.reader.starts = some d) : n ≠ d ∧ c.reader = c'.reader := by
    rcases hrd with ⟨hsm, hs⟩ | ⟨hn, -⟩
    · refine ⟨?_, hsm.symm⟩
      rintro rfl
      rw [hsm] at hd
      obtain ⟨job₀, hj₀, had, -⟩ := h.starting _ hd
      rw [hj, Option.some.injEq] at hj₀
      rw [hj₀] at hs
      exact hs had
    · rw [hn] at hd
      cases hd
  constructor
  · intro d hd
    obtain ⟨hne, hsm⟩ := hst d hd
    rw [hot d hne]
    exact h.starting d (hsm ▸ hd)
  · intro d hd
    obtain ⟨hne, hsm⟩ := hst d (starts_of_counts hd)
    exact ha d hne (h.counted d (hsm ▸ hd))
  · intro d job' hj' ho
    by_cases hd : n = d
    · rw [← hd, hsl, Option.some.injEq] at hj'
      rw [← hj'] at ho ⊢
      rw [← hd]
      exact hp ho
    · rw [hot d hd] at hj'
      rcases h.placed d job' hj' ho with ⟨hw, hm⟩ | ⟨hw, hat⟩
      · exact .inl ⟨hw, ha d hd hm⟩
      · rcases hrd with ⟨hsm, -⟩ | ⟨-, ht⟩
        · rw [hsm]
          exact .inr ⟨hw, hat⟩
        · rw [ht, Option.some.injEq] at hat
          exact absurd hat hd
  · intro d job' hj' hcl
    by_cases hd : n = d
    · rw [← hd, hsl, Option.some.injEq] at hj'
      rw [← hj'] at hcl ⊢
      exact hc hcl
    · rw [hot d hd] at hj'
      exact h.cleared d job' hj' hcl

theorem Flagged.length_eq {jobs' : List Job} (h : Flagged p jobs jobs') :
    jobs'.length = jobs.length := by
  obtain ⟨cancel, hjb⟩ := h
  have hn (d : Nat) : jobs'.length ≤ d ↔ jobs.length ≤ d := by
    rw [← List.getElem?_eq_none_iff, ← List.getElem?_eq_none_iff, hjb, Option.map_eq_none_iff]
  have h₁ := (hn jobs.length).mpr (Nat.le_refl _)
  have h₂ := (hn jobs'.length).mp (Nat.le_refl _)
  omega

variable {kept : List Job}

/-- Behind a dispatch a job is the new one, or an old one with other flags. -/
theorem Flagged.getElem?_append (h : Flagged p jobs kept)
    {new : Job} (hj : (kept ++ [new])[d]? = some job') :
    d = jobs.length ∧ job' = new ∨
      ∃ job cancel, jobs[d]? = some job ∧ job' = job.flag cancel (p job) := by
  have hl := h.length_eq
  obtain ⟨cancel, hjb⟩ := h
  rw [List.getElem?_append] at hj
  split at hj
  · right
    rw [hjb, Option.map_eq_some_iff] at hj
    obtain ⟨job, ho, hsm⟩ := hj
    exact ⟨job, _, ho, hsm.symm⟩
  · left
    rw [List.getElem?_singleton] at hj
    split at hj
    · exact ⟨by omega, (Option.some.inj hj).symm⟩
    · cases hj

/-- A dispatch seats the new request with the reader. -/
theorem Seated.dispatches (h : c.Seated) (hb : c.reader.attends = none) {request : ServerRequest}
    {isAsync : Bool} (hk : Flagged (fun _ => false) c.jobs kept) (hjb : c'.jobs = kept ++
      [⟨request, false, if isAsync then .admitted else .performing, false, false, false⟩])
    (hrd : c'.reader =
      if isAsync then .dispatching c.jobs.length else .serving c.jobs.length)
    (ha : c'.active = c.active) : c'.Seated := by
  have han : c'.reader.attends = some c.jobs.length := by
    rw [hrd]
    cases isAsync <;> rfl
  constructor
  · intro d hd
    rw [hrd] at hd
    cases isAsync with
    | false => cases hd
    | true =>
      cases hd
      refine ⟨⟨request, false, .admitted, false, false, false⟩, ?_, rfl, rfl⟩
      rw [hjb, ← hk.length_eq]
      exact List.getElem?_concat_length
  · intro d hd
    rw [hrd] at hd
    cases isAsync <;> cases hd
  · intro d job' hj' ho
    rw [hjb] at hj'
    rcases hk.getElem?_append hj' with ⟨rfl, rfl⟩ | ⟨job, cancel, hj, rfl⟩
    · exact .inr ⟨rfl, han⟩
    · rcases h.placed d job hj ho with hw | ⟨-, hat⟩
      · rw [ha]
        exact .inl hw
      · rw [hb] at hat
        cases hat
  · intro d job' hj' hcl
    rw [hjb] at hj'
    rcases hk.getElem?_append hj' with ⟨rfl, rfl⟩ | ⟨job, cancel, hj, rfl⟩
    · cases hcl
    · exact h.cleared d job hj hcl

/-- The request that the reader still has to hand on. -/
theorem Seated.start (h : c.Seated) (hst : c.reader.starts = some n)
    (hj : c.jobs[n]? = some job) : job.stage = .admitted ∧ job.worker = false := by
  obtain ⟨job₀, hj₀, hs⟩ := h.starting n hst
  rw [hj, Option.some.injEq] at hj₀
  rwa [hj₀]

section
variable (h : c.Seated) (hj : c.jobs[n]? = some job) (ho : job.stage.ended = false)
include h hj ho

theorem Seated.not_cleared : job.cleared = false := by
  cases hc : job.cleared with
  | false => rfl
  | true => exact (ho.symm.trans (h.cleared n job hj hc)).symm

/-- A request that is not over keeps its seat while its own thread moves it on. -/
theorem Seated.setStage (hs : job.stage ≠ .admitted) {stage : Stage}
    (hjb : c'.jobs = (c.setStage n stage).jobs)
    (hrd : c'.reader = c.reader) (ha : c'.active = c.active) : c'.Seated := by
  apply h.moves_job hj hjb
  · exact .inl ⟨hrd, hs⟩
  · intro d _ hd
    rwa [ha]
  · intro _
    rw [hrd, ha]
    exact h.placed n job hj ho
  · intro hc
    exact absurd ((h.not_cleared hj ho).symm.trans hc) (by decide)

end

theorem Seated.step (h : c.Seated) (had : ∀ m, c.reader = .admitting m →
      c.session.Admission m (admitMessage c.session m).1 (admitMessage c.session m).2)
    (hsp : c.Step limit action c') : c'.Seated := by
  cases hsp with
  | reads message at_ =>
    apply h.moves_on (p := fun _ => false)
    · rw [at_]; rfl
    · split <;> rfl
    · exact flagged_of_eq rfl
    · rfl
  | hangsUp result at_ | takesWriter at_ free | sizes at_ =>
    exact h.moves_on (by rw [at_]; rfl) rfl (flagged_of_eq rfl) rfl
  | resets at_ =>
    exact h.moves_on (by rw [at_]; rfl) rfl ((flagged_raise _).withdraw fun _ _ => rfl) rfl
  | @drains next han at_ idle =>
    apply h.moves_on (p := fun _ => false)
    · rw [at_]; rfl
    · cases next with
      | proceed message => cases han <;> rfl
      | close result => cases result <;> rfl
    · exact flagged_of_eq rfl
    · rfl
  | @admits message isAsync at_ =>
    have ht := takes_admitSection isAsync (had message at_)
    have ha : (c.admitSection message isAsync).active = c.active :=
      (onEvent_frame _ _ _ _).2.2.2.1
    have hb : c.reader.attends = none := by rw [at_]; rfl
    generalize (admitMessage c.session message).1 = event at ht
    generalize c.admitSection message isAsync = c' at ht ha ⊢
    cases ht with
    | version same reader | other ordinary same reader =>
      exact h.moves_on hb (by rw [reader]; rfl) (flagged_of_eq same) ha
    | flush flagged reader => exact h.moves_on hb (by rw [reader]; rfl) flagged ha
    | dispatch isAsync flagged appended reader =>
      exact h.dispatches hb flagged appended reader ha
  | @sends origin reply msize io at_ =>
    apply h.moves_on (p := fun _ => false)
    · rw [at_]; rfl
    · change (Reader.resume _).attends = none
      cases writeRMessageChecked msize reply io <;> rfl
    · exact flagged_of_eq rfl
    · rfl
  | @registers number job fid at_ dispatched =>
    obtain ⟨hs, hwr⟩ := h.start (by rw [at_]; rfl) dispatched
    have ho : job.stage.ended = false := by rw [hs]; rfl
    unfold registerSection
    split
    · apply h.moves_job dispatched (f := fun job => { job with stage := _ })
      · rfl
      · exact .inr ⟨rfl, by rw [at_]; rfl⟩
      · exact fun _ _ => id
      · exact fun _ => .inr ⟨hwr, rfl⟩
      · intro hc
        exact absurd ((h.not_cleared dispatched ho).symm.trans hc) (by decide)
    · apply h.keeps
      · rfl
      · rw [at_]; rfl
      · rw [at_]; rfl
      · intro d hd
        cases hd
        exact List.mem_cons_self
      · intro d hd
        exact List.mem_cons_of_mem _ hd
  | @spawns number at_ =>
    obtain ⟨job, hj, hs, hwr⟩ := h.starting number (by rw [at_]; rfl)
    have ho : job.stage.ended = false := by rw [hs]; rfl
    apply h.moves_job hj (f := fun job => { job with worker := true, stage := .performing })
    · rfl
    · exact .inr ⟨rfl, by rw [at_]; rfl⟩
    · exact fun _ _ => id
    · exact fun _ => .inl ⟨rfl, h.counted number (by rw [at_]; rfl)⟩
    · intro hc
      exact absurd ((h.not_cleared hj ho).symm.trans hc) (by decide)
  | failsToSpawn text at_ | unregisters at_ dispatched =>
    apply h.keeps
    · rfl
    · rw [at_]; rfl
    · rw [at_]; rfl
    · intro d hd
      exact h.counted d (by rw [at_]; exact hd)
    · exact fun _ => id
  | @unspawns number text at_ =>
    obtain ⟨job, hj, hs, hwr⟩ := h.starting number (by rw [at_]; rfl)
    have ho : job.stage.ended = false := by rw [hs]; rfl
    apply h.moves_job hj (f := fun job => { job with stage := _ })
    · rfl
    · exact .inr ⟨rfl, by rw [at_]; rfl⟩
    · intro d hd hm
      exact (List.mem_erase_of_ne (Ne.symm hd)).mpr hm
    · exact fun _ => .inr ⟨hwr, rfl⟩
    · intro hc
      exact absurd ((h.not_cleared hj ho).symm.trans hc) (by decide)
  | returns number result dispatched stage | panics number dispatched stage worker
  | locks number dispatched stage free | completes number dispatched stage =>
    apply h.setStage dispatched (by rw [stage]; rfl) (by rw [stage]; nofun)
    all_goals rfl
  | @writes job reply msize number io dispatched stage =>
    have ho : job.stage.ended = false := by rw [stage]; rfl
    apply h.moves_job dispatched (f := fun job => { job with stage := _ })
    · rfl
    · cases hwr : job.worker with
      | true => exact .inl ⟨rfl, by rw [stage]; nofun⟩
      | false =>
        right
        constructor
        · change (Reader.resume _).starts = none
          cases writeOutcome reply msize io <;> rfl
        · rcases h.placed number job dispatched ho with ⟨hw, -⟩ | ⟨-, hat⟩
          · rw [hwr] at hw
            cases hw
          · exact hat
    · exact fun _ _ => id
    · nofun
    · exact fun _ => rfl
  | clears number dispatched worker ended cleared =>
    apply h.moves_job dispatched (f := fun job => { job with cleared := true })
    · rfl
    · refine .inl ⟨rfl, ?_⟩
      intro hs
      rw [hs] at ended
      cases ended
    · exact fun _ _ => id
    · intro ho
      exact absurd (ho.symm.trans ended) (by decide)
    · exact fun _ => ended
  | leaves number dispatched cleared =>
    have ho := h.cleared number _ dispatched cleared
    apply h.moves_job dispatched (f := id)
    · exact (List.modify_id _ _).symm
    · refine .inl ⟨rfl, ?_⟩
      intro hs
      rw [hs] at ho
      cases ho
    · intro d hd hm
      exact (List.mem_erase_of_ne (Ne.symm hd)).mpr hm
    · intro hn
      exact absurd (hn.symm.trans ho) (by decide)
    · exact fun _ => ho

/-! ### Who has the writer -/

/-- The thread of a request has the writer. -/
def holds (c : Conn) (d : Nat) : Bool := c.jobs[d]?.any (·.stage.holds)

theorem holds_eq (hj : c.jobs[d]? = some job) : c.holds d = job.stage.holds := by
  rw [holds, hj]
  rfl

theorem holds_of_flagged (h : Flagged p c.jobs c'.jobs) (d : Nat) : c'.holds d = c.holds d := by
  obtain ⟨cancel, hjb⟩ := h
  rw [holds, holds, hjb]
  cases c.jobs[d]? <;> rfl

/-- Changing one job changes nobody else's hold. -/
theorem holds_of_modify (hj : c.jobs[n]? = some job) (hjb : c'.jobs = c.jobs.modify n f) (d : Nat) :
    c'.holds d = if n = d then (f job).stage.holds else c.holds d := by
  have hl : c'.jobs[d]? = if n = d then c.jobs[d]?.map f else c.jobs[d]? := by
    rw [hjb]
    exact getElem?_onJob
  rw [holds, hl]
  split
  · next hd =>
    rw [← hd, hj]
    rfl
  · rfl

theorem holds_of_append {new : Job} (h : Flagged p c.jobs kept) (hjb : c'.jobs = kept ++ [new])
    (hnw : new.stage.holds = false) (d : Nat) : c'.holds d = c.holds d := by
  have hl := h.length_eq
  obtain ⟨cancel, hk⟩ := h
  rw [holds, holds, hjb, List.getElem?_append]
  split
  · rw [hk]
    cases c.jobs[d]? <;> rfl
  · next hd =>
    have hn : c.jobs[d]? = none := by
      rw [List.getElem?_eq_none_iff]
      omega
    rw [hn, List.getElem?_singleton]
    split
    · exact hnw
    · rfl

/-- The lock of the writer records who is at it. -/
structure Exclusive (c : Conn) : Prop where
  held : ∀ d, c.writer = some (.job d) ↔ c.holds d = true
  replying : c.writer = some .reader ↔ c.reader.holds = true

theorem Exclusive.keeps (h : c.Exclusive) (hw : c'.writer = c.writer)
    (hjb : ∀ d, c'.holds d = c.holds d) (hrd : c'.reader.holds = c.reader.holds) :
    c'.Exclusive := by
  constructor
  · intro d
    rw [hw, hjb]
    exact h.held d
  · rw [hw, hrd]
    exact h.replying

/-- A thread takes the writer, or gives it back. -/
theorem Exclusive.moves_job (h : c.Exclusive) (hj : c.jobs[n]? = some job)
    (hjb : c'.jobs = c.jobs.modify n f) (hrd : c'.reader.holds = c.reader.holds)
    (hw : c'.writer = c.writer ∧ (f job).stage.holds = job.stage.holds ∨
      c.writer = none ∧ c'.writer = some (.job n) ∧ (f job).stage.holds = true ∨
      job.stage.holds = true ∧ c'.writer = none ∧ (f job).stage.holds = false) : c'.Exclusive := by
  have hl := holds_of_modify hj hjb
  have hsl := holds_eq hj
  rcases hw with ⟨hsm, hh⟩ | ⟨hf, ht, hh⟩ | ⟨hhl, hf, hh⟩
  · apply h.keeps hsm _ hrd
    intro d
    rw [hl, hh]
    split
    · next hd => rw [← hd, hsl]
    · rfl
  · -- Nobody had the writer.
    have hnb (d : Nat) : c.holds d = false := by
      have hd := h.held d
      rw [hf] at hd
      simpa using hd
    constructor
    · intro d
      rw [hl, ht, hh, hnb]
      simp
    · have hr := h.replying
      rw [hf] at hr
      rw [ht, hrd]
      simpa using hr
  · -- Nobody else had it.
    have ho : c.writer = some (.job n) := (h.held n).mpr (hsl.trans hhl)
    constructor
    · intro d
      rw [hl, hf, hh]
      have hd := h.held d
      rw [ho] at hd
      by_cases hn : n = d
      · simp [hn]
      · simpa [hn] using hd
    · have hr := h.replying
      rw [ho] at hr
      rw [hf, hrd]
      simpa using hr

theorem Exclusive.step (h : c.Exclusive) (hst : c.Seated) (had : ∀ m, c.reader = .admitting m →
      c.session.Admission m (admitMessage c.session m).1 (admitMessage c.session m).2)
    (hsp : c.Step limit action c') : c'.Exclusive := by
  cases hsp with
  | reads message at_ =>
    apply h.keeps
    · rfl
    · exact fun _ => rfl
    · rw [at_]
      dsimp only
      split <;> rfl
  | hangsUp result at_ | sizes at_ | failsToSpawn text at_ | unregisters at_ dispatched =>
    exact h.keeps rfl (fun _ => rfl) (by rw [at_]; rfl)
  | resets at_ =>
    apply h.keeps
    · rfl
    · exact holds_of_flagged ((flagged_raise _).withdraw fun _ _ => rfl)
    · rw [at_]; rfl
  | @drains next han at_ idle =>
    apply h.keeps
    · rfl
    · exact fun _ => rfl
    · rw [at_]
      cases next with
      | proceed message => cases han <;> rfl
      | close result => cases result <;> rfl
  | @admits message isAsync at_ =>
    have ht := takes_admitSection isAsync (had message at_)
    have hw : (c.admitSection message isAsync).writer = c.writer :=
      (onEvent_frame _ _ _ _).2.2.1
    have hb : c.reader.holds = false := by rw [at_]; rfl
    generalize (admitMessage c.session message).1 = event at ht
    generalize c.admitSection message isAsync = c' at ht hw ⊢
    apply h.keeps hw
    · cases ht with
      | version same reader | other ordinary same reader =>
        exact holds_of_flagged (flagged_of_eq same)
      | flush flagged reader => exact holds_of_flagged flagged
      | dispatch isAsync flagged appended reader =>
        apply holds_of_append flagged appended
        cases isAsync <;> rfl
    · rw [hb]
      cases ht with
      | version same reader | flush flagged reader | other ordinary same reader => rw [reader]; rfl
      | dispatch isAsync flagged appended reader =>
        rw [reader]
        cases isAsync <;> rfl
  | takesWriter at_ free =>
    constructor
    · intro d
      have hd := h.held d
      rw [free] at hd
      change some Holder.reader = some (Holder.job d) ↔ c.holds d = true
      simpa using hd
    · exact ⟨fun _ => rfl, fun _ => rfl⟩
  | @sends origin reply msize io at_ =>
    have ho : c.writer = some .reader := h.replying.mpr (by rw [at_]; rfl)
    constructor
    · intro d
      have hd := h.held d
      rw [ho] at hd
      change none = some (Holder.job d) ↔ c.holds d = true
      simpa using hd
    · change none = some Holder.reader ↔ (Reader.resume _).holds = true
      cases writeRMessageChecked msize reply io <;> simp [Reader.resume, Reader.holds]
  | @registers number job fid at_ dispatched =>
    obtain ⟨hs, hwr⟩ := hst.start (by rw [at_]; rfl) dispatched
    unfold registerSection
    split
    · apply h.moves_job dispatched (f := fun job => { job with stage := _ })
      · rfl
      · rw [at_]; rfl
      · exact .inl ⟨rfl, by rw [hs]; rfl⟩
    · exact h.keeps rfl (fun _ => rfl) (by rw [at_]; rfl)
  | @spawns number at_ =>
    obtain ⟨job, hj, hs, hwr⟩ := hst.starting number (by rw [at_]; rfl)
    apply h.moves_job hj (f := fun job => { job with worker := true, stage := .performing })
    · rfl
    · rw [at_]; rfl
    · exact .inl ⟨rfl, by rw [hs]; rfl⟩
  | @unspawns number text at_ =>
    obtain ⟨job, hj, hs, hwr⟩ := hst.starting number (by rw [at_]; rfl)
    apply h.moves_job hj (f := fun job => { job with stage := _ })
    · rfl
    · rw [at_]; rfl
    · exact .inl ⟨rfl, by rw [hs]; rfl⟩
  | returns number result dispatched stage | panics number dispatched stage worker
  | completes number dispatched stage =>
    apply h.moves_job dispatched (f := fun job => { job with stage := _ })
    · rfl
    · rfl
    · exact .inl ⟨rfl, by rw [stage]; rfl⟩
  | locks number dispatched stage free =>
    apply h.moves_job dispatched (f := fun job => { job with stage := _ })
    · rfl
    · rfl
    · exact .inr (.inl ⟨free, rfl, rfl⟩)
  | @writes job reply msize number io dispatched stage =>
    have hh : job.stage.holds = true := by rw [stage]; rfl
    have ho : c.writer = some (.job number) :=
      (h.held number).mpr ((holds_eq dispatched).trans hh)
    apply h.moves_job dispatched (f := fun job => { job with stage := _ })
    · rfl
    · -- The reader does not have the writer, neither before nor behind its own request.
      have hb : c.reader.holds = false := by
        have hr := h.replying
        rw [ho] at hr
        simpa using hr
      rw [hb]
      cases hwr : job.worker with
      | true => exact hb
      | false =>
        change (Reader.resume _).holds = false
        cases writeOutcome reply msize io <;> rfl
    · exact .inr (.inr ⟨hh, rfl, rfl⟩)
  | clears number dispatched worker ended cleared =>
    apply h.moves_job dispatched (f := fun job => { job with cleared := true })
    · rfl
    · rfl
    · exact .inl ⟨rfl, rfl⟩
  | leaves number dispatched cleared => exact h.keeps rfl (fun _ => rfl) rfl

end Conn
end R9P.Connection
