import R9P.Connection.Order

/-!
# Every request is answered

Library `Connection`. A request whose handler has returned ends with one frame on the stream,
unless a flush or a version request took its tag away or a failed write ended the loop. This needs
that the replies of workers can be written: a worker drops the error of its write, and the request
stays without an answer while the connection goes on. It also needs that the input does not end
while requests are served, for the loop then ends without their replies.
-/

namespace R9P.Connection
open Base Wire Server
open Option (map_eq_some_iff map_some)

namespace Stage

/-- The reply is on the stream. -/
def delivered : Stage → Bool
  | finished (some _) (.ok ()) => true
  | _ => false

/-- The reply could not be written. -/
def failed : Stage → Bool
  | finished _ (.error _) => true
  | _ => false

/-- The handler has returned. -/
def returns : Stage → Bool
  | returned _ | locked _ | completed .. | finished .. => true
  | admitted | performing | panicked => false

/-- Before the session is asked, there is no result. -/
theorem no_result_of_early {stage : Stage} (h : stage.early = true) :
    stage.delivered = false ∧ stage.failed = false ∧ stage.unanswered = false := by
  cases stage with
  | completed | finished | panicked => cases h
  | _ => exact ⟨rfl, rfl, rfl⟩

end Stage

namespace Conn

variable {config : ServerConfig} {limit : Nat} {history : List Action} {c c' : Conn}
  {action : Action} {d n : Nat} {job job' : Job} {reply : Option RMessage}

/-- Once the loop has returned it does not come back. -/
theorem Step.ended (hst : c.Step limit action c') (h : c.Sound)
    (hen : c.reader.ended.isSome = true) : c'.reader.ended.isSome = true := by
  have ht := hst.turns h
  generalize c'.reader = r at ht
  cases ht with
  | stays => exact hen
  | closes | ends => rfl
  | @resets next at_ =>
    rw [at_] at hen
    cases next <;> exact hen
  | works usable => exact absurd (Reader.stale_of_ended hen) (by rw [usable]; nofun)
  | reads at_ | restarts at_ | proceeds at_ | admits at_ =>
    rw [at_] at hen
    cases hen

/-- The request whose reply the reader thread writes is the one that it attends to. -/
theorem Sound.attends (h : c.Sound) (hj : c.jobs[n]? = some job)
    {msize : UInt32} (hs : job.stage = .completed reply msize) (hw : job.worker = false) :
    c.reader.attends = some n := by
  rcases h.seated.placed n job hj (by rw [hs]; rfl) with ⟨hwk, _⟩ | ⟨_, hat⟩
  · cases hw.symm.trans hwk
  · exact hat

theorem Reader.ended_of_attends {r : Reader} (h : r.attends = some n) : r.ended = none := by
  cases r with
  | resetting | draining | closed => cases h
  | _ => rfl

/-- The result of a loop that returned with an error stays. -/
theorem Step.ended_error (hst : c.Step limit action c') (h : c.Sound) {e : Error}
    (hen : c.reader.ended = some (.error e)) : c'.reader.ended = some (.error e) := by
  cases hst with
  | @resets next at_ =>
    rw [at_] at hen
    cases next with
    | proceed m => cases hen
    | close result => exact hen
  | @drains next handlerReset at_ idle =>
    rw [at_] at hen
    cases next with
    | proceed m => cases hen
    | close result =>
      cases hen
      rfl
  | @writes job reply msize number io dispatched stage =>
    change (if job.worker then c.reader else .resume _).ended = _
    cases hw : job.worker with
    | true => exact hen
    | false =>
      rw [Reader.ended_of_attends (h.attends dispatched stage hw)] at hen
      cases hen
  | returns | panics | locks | completes | clears | leaves => exact hen
  | reads _ at_ | hangsUp _ at_ | admits _ at_ | sends _ at_ | failsToSpawn _ at_ =>
    rw [at_] at hen
    cases hen
  | takesWriter at_ | sizes at_ | spawns at_ | unregisters at_ | unspawns at_ =>
    rw [at_] at hen
    cases hen
  | registers _ at_ =>
    rw [at_] at hen
    cases hen

/-- The reader cannot write a reply. -/
def FailsToWrite (c : Conn) (e : Error) : Action → Prop
  | .sends io => ∃ origin reply msize, c.reader = .replySized origin reply msize ∧
    writeRMessageChecked msize reply io = .error e
  | .writes n io => ∃ job reply msize, c.jobs[n]? = some job ∧ job.worker = false ∧
    job.stage = .completed reply msize ∧ writeOutcome reply msize io = .error e
  | _ => False

/-- The loop has returned with the error of a write. -/
def Broken (config : ServerConfig) (history : List Action) (c : Conn) : Prop :=
  ∃ e newer action older c₀, history = newer ++ action :: older ∧
    (connection config).Run older c₀ ∧ c₀.FailsToWrite e action ∧ c.reader.ended = some (.error e)

theorem Broken.later (hb : Broken config history c) (h : c.Sound)
    (hst : c.Step limit action c') : Broken config (action :: history) c' := by
  obtain ⟨e, newer, failing, older, c₀, rfl, hr, hf, hen⟩ := hb
  exact ⟨e, action :: newer, failing, older, c₀, rfl, hr, hf, hst.ended_error h hen⟩

/-- A loop returns behind a failed write, at the end of its input, or behind a reset for which no
request is under way. -/
theorem Step.ends_cases (hst : c.Step limit action c') (hup : c.reader.ended = none)
    (hen : c'.reader.ended.isSome = true) :
    (∃ e, c.FailsToWrite e action ∧ c'.reader.ended = some (.error e)) ∨
    c'.jobs = c.jobs ∧ ((∃ result, action = .hangsUp result) ∨
      c.active = [] ∧ c.reader.attends = none) := by
  cases hst with
  | hangsUp result at_ => exact .inr ⟨rfl, .inl ⟨result, rfl⟩⟩
  | drains handlerReset at_ idle =>
    refine .inr ⟨rfl, .inr ⟨idle, ?_⟩⟩
    rw [at_]
    rfl
  | @sends origin reply msize io at_ =>
    change (Reader.resume (writeRMessageChecked msize reply io)).ended.isSome = true at hen
    cases ho : writeRMessageChecked msize reply io with
    | ok _ =>
      rw [ho] at hen
      cases hen
    | error e =>
      refine .inl ⟨e, ⟨origin, reply, msize, at_, ho⟩, ?_⟩
      change (Reader.resume (writeRMessageChecked msize reply io)).ended = _
      rw [ho]
      rfl
  | @writes job reply msize number io dispatched stage =>
    change (if job.worker then c.reader else .resume (writeOutcome reply msize io)).ended.isSome =
      true at hen
    cases hw : job.worker with
    | true =>
      rw [hw, if_pos rfl, hup] at hen
      cases hen
    | false =>
      rw [hw, if_neg Bool.false_ne_true] at hen
      cases ho : writeOutcome reply msize io with
      | ok _ =>
        rw [ho] at hen
        cases hen
      | error e =>
        refine .inl ⟨e, ⟨job, reply, msize, dispatched, hw, stage, ho⟩, ?_⟩
        change (Reader.resume (writeOutcome reply msize io)).ended = _
        rw [ho]
        rfl
  | reads message at_ =>
    change (if _ then _ else _ : Reader).ended.isSome = true at hen
    split at hen <;> cases hen
  | @resets next at_ =>
    rw [at_] at hup
    cases next with
    | proceed m => cases hen
    | close result => cases hup
  | admits isAsync at_ =>
    unfold admitSection onEvent at hen
    split at hen
    case h_4 =>
      dsimp only at hen
      split at hen <;> cases hen
    all_goals cases hen
  | registers fid at_ dispatched =>
    unfold registerSection at hen
    split at hen <;> cases hen
  | takesWriter | sizes | spawns | failsToSpawn | unregisters | unspawns => cases hen
  | returns | panics | locks | completes | clears | leaves =>
    change c.reader.ended.isSome = true at hen
    rw [hup] at hen
    cases hen

/-- A request with its reply in hand is over only behind its own write. -/
theorem Step.write_cases (hst : c.Step limit action c') (h : c.Sound) :
    (∃ (n : Nat) (job : Job) (reply : Option RMessage) (msize : UInt32) (io : Result Unit),
      action = .writes n io ∧ c.jobs[n]? = some job ∧ job.stage = .completed reply msize ∧
        c' = c.writeSection n job.worker reply msize io) ∨
      (c'.written = c.written ∨ ∃ origin reply msize, c.reader = .replySized origin reply msize ∧
        c'.written = ⟨origin, reply⟩ :: c.written) ∧
      ∀ (d : Nat) (job job' : Job), c.jobs[d]? = some job → c'.jobs[d]? = some job' →
        (∃ reply msize, job.stage = .completed reply msize) → job'.stage = job.stage := by
  have hfl {p : Job → Bool} {jobs' : List Job} (hf : Flagged p c.jobs jobs') {d : Nat}
      {job job' : Job} (hj : c.jobs[d]? = some job) (hj' : jobs'[d]? = some job') :
      job'.stage = job.stage := by
    obtain ⟨cancel, hjb⟩ := hf
    rw [hjb, hj, map_some, Option.some.injEq] at hj'
    rw [← hj']
    rfl
  have hk (hna : ∀ n io, action ≠ .writes n io) (d : Nat) (job job' : Job)
      (hj : c.jobs[d]? = some job) (hj' : c'.jobs[d]? = some job')
      (hc : ∃ reply msize, job.stage = .completed reply msize) : job'.stage = job.stage := by
    cases hst.reworks h with
    | flags flagged => exact hfl flagged hj hj'
    | @modifies n moved f dispatched modified moves own =>
      have hl : (c.onJob n f).jobs[d]? = some job' := by
        rw [onJob, ← modified]
        exact hj'
      rw [getElem?_onJob] at hl
      split at hl
      · next hd =>
        obtain ⟨reply, msize, hs⟩ := hc
        rw [hd, hj, Option.some.injEq] at dispatched
        rw [dispatched] at hs
        exact absurd hs (own.resolve_left (not_exists.mpr (hna n)) reply msize)
      · exact hfl (flagged_of_eq rfl) hj hl
    | appends _ _ _ flagged appended =>
      rw [appended, List.getElem?_append_left] at hj'
      · exact hfl flagged hj hj'
      · rw [flagged.length_eq]
        exact (List.getElem?_eq_some_iff.mp hj).1
  cases hst with
  | writes number io dispatched stage =>
    exact .inl ⟨number, _, _, _, io, rfl, dispatched, stage, rfl⟩
  | admits isAsync at_ => exact .inr ⟨.inl (onEvent_frame _ _ _ _).2.2.2.2, hk (by rintro _ _ ⟨⟩)⟩
  | @sends origin reply msize io at_ =>
    refine .inr ⟨?_, hk (by rintro _ _ ⟨⟩)⟩
    change (if writeRMessageChecked msize reply io = .ok () then _ else _) = _ ∨
      ∃ _ _ _, _ ∧ (if writeRMessageChecked msize reply io = .ok () then _ else _) = _
    split
    · exact .inr ⟨origin, reply, msize, at_, rfl⟩
    · exact .inl rfl
  | registers fid at_ dispatched =>
    refine .inr ⟨.inl ?_, hk (by rintro _ _ ⟨⟩)⟩
    unfold registerSection
    split <;> rfl
  | _ => exact .inr ⟨.inl rfl, hk (by rintro _ _ ⟨⟩)⟩

/-- What has become of the requests. -/
structure Answering (config : ServerConfig) (history : List Action) (c : Conn) : Prop where
  live : ∀ (d : Nat) (job : Job), c.jobs[d]? = some job → job.stage.early = true →
    job.withdrawn = false → c.reader.ended = none → c.session.IsLive job.request.key
  closed : c.reader.ended.isSome = true → Broken config history c ∨
    ∀ (d : Nat) (job : Job), c.jobs[d]? = some job → job.stage.early = true → job.withdrawn = true
  unanswered : ∀ (d : Nat) (job : Job), c.jobs[d]? = some job → job.stage.unanswered = true →
    job.withdrawn = true ∨ Broken config history c
  failed : ∀ (d : Nat) (job : Job), c.jobs[d]? = some job → job.stage.failed = true →
    Broken config history c
  tagged : ∀ (d : Nat) (job : Job) reply msize, c.jobs[d]? = some job →
    job.stage = .completed (some reply) msize → reply.tag = job.request.tag
  framed : ∀ frame ∈ c.written, ∀ (d : Nat) (job : Job), frame.origin = .job d →
    c.jobs[d]? = some job → frame.message.tag = job.request.tag
  once : ∀ (d : Nat) (job : Job), c.jobs[d]? = some job →
    c.written.countP (·.origin = .job d) = job.stage.delivered.toNat

/-- The job behind a step, seen from the job before it. -/
theorem Step.cases (hst : c.Step limit action c') (h : c.Sound) (hj' : c'.jobs[d]? = some job') :
    (∃ job, c.jobs[d]? = some job ∧ Job.Moves c.session job job') ∨ Begun c c' d job' := by
  rcases hst.before h hj' with ⟨job, hj⟩ | hbg
  · left
    obtain ⟨job₁, hj₁, hm⟩ := hst.moves h hj
    rw [hj', Option.some.injEq] at hj₁
    rw [← hj₁] at hm
    exact ⟨job, hj, hm⟩
  · exact .inr hbg

/-- A request that the session has not been asked for was not before either. -/
theorem Job.Moves.early {s : Session} (h : Job.Moves s job job')
    (he : job'.stage.early = true) : job.stage.early = true := by
  have hm := h.stage
  generalize job.stage = stage at hm ⊢
  generalize job'.stage = stage' at hm he
  cases hm with
  | stays => exact he
  | advances before after | panics before => exact before
  | completes => rfl
  | finishes => cases he

/-- A request that the session has not been asked for, and from which nobody took the tag,
stays live. -/
theorem Step.live (hst : c.Step limit action c') (h : c.Sound) (hn : c.Numbered)
    (hd : ∀ m, c.reader = .admitting m → m.messageType = TVERSION → c.active = [])
    (hj : c.jobs[d]? = some job) (hj' : c'.jobs[d]? = some job') (he : job.stage.early = true)
    (he' : job'.stage.early = true) (hop : job'.withdrawn = false) (hup : c'.reader.ended = none)
    (hlv : c.session.IsLive job.request.key) : c'.session.IsLive job.request.key := by
  rcases hst.session_cases with ⟨hss, -⟩ | ⟨next, -, rfl⟩ | ⟨m, isAsync, at_, rfl⟩ |
    ⟨n, done, result, hdn, hs, rfl⟩
  · rwa [hss]
  · -- The reset of a version request withdraws the request.
    exfalso
    cases next with
    | close result => cases hup
    | proceed m =>
      have hj'' : (withdraw (raise c.jobs c.pending) fun _ => true)[d]? = some job' := hj'
      rw [getElem?_withdraw, getElem?_raise, hj] at hj''
      simp only [map_some, Option.some.injEq] at hj''
      rw [← hj''] at hop
      simp [he] at hop
  · have had := h.admission at_
    rw [session_admitSection]
    have hm : m.messageType ≠ TVERSION := by
      intro hm
      have ho := h.over_of_idle (hd m at_ hm) (by rw [at_]; rfl) hj
      rw [Stage.not_early_of_over ho] at he
      cases he
    apply had.live_after hm _ hlv
    -- So does a flush of its tag.
    intro tag reply outcome hf hev
    have ht := takes_admitSection isAsync had
    generalize (admitMessage c.session m).1 = event at ht hev
    generalize c.admitSection m isAsync = c' at ht hj'
    rw [hf, hev] at ht
    cases ht with
    | flush flagged reader =>
      obtain ⟨cancel, hjb⟩ := flagged
      rw [hjb, hj, map_some, Option.some.injEq] at hj'
      rw [← hj'] at hop
      simp [Job.flag, he, ServerRequest.tag] at hop
  · apply (c.session.completion done.request result).live_after _ hlv
    -- Requests have different keys.
    intro hk
    have hne : n ≠ d := by
      rintro rfl
      have hj'' : (c.setStage n _).jobs[n]? = some job' := hj'
      rw [setStage, getElem?_onJob, if_pos rfl, hj, map_some, Option.some.injEq] at hj''
      rw [← hj''] at he'
      cases he'
    rcases Nat.lt_or_gt_of_ne hne with hlt | hlt
    · have hg := hn.increasing n d done job hdn hj hlt
      rw [hk] at hg
      exact Nat.lt_irrefl _ hg
    · have hg := hn.increasing d n job done hj hdn hlt
      rw [hk] at hg
      exact Nat.lt_irrefl _ hg

/-- A step is the last of a request, or adds no frame of it and changes no result. -/
theorem Step.finish_cases (hst : c.Step limit action c') (h : c.Sound)
    (how : ∀ origin, c.reader.origin = some origin → ∀ n, origin ≠ .job n)
    (hj : c.jobs[d]? = some job) (hj' : c'.jobs[d]? = some job') :
    (∃ reply msize io, action = .writes d io ∧ job.stage = .completed reply msize ∧
      c' = c.writeSection d job.worker reply msize io) ∨
      c'.written.countP (·.origin = .job d) = c.written.countP (·.origin = .job d) ∧
        job'.stage.delivered = job.stage.delivered ∧ job'.stage.failed = job.stage.failed := by
  rcases hst.write_cases h with ⟨n, done, reply, msize, io, ha, hdn, hs, rfl⟩ | ⟨hwr, hk⟩
  · by_cases hd : n = d
    · subst hd
      rw [hj, Option.some.injEq] at hdn
      rw [← hdn] at hs ⊢
      exact .inl ⟨reply, msize, io, ha, hs, rfl⟩
    · right
      have hsm : (c.setStage n _).jobs[d]? = some job' := hj'
      rw [setStage, getElem?_onJob, if_neg hd, hj, Option.some.injEq] at hsm
      rw [hsm]
      refine ⟨?_, rfl, rfl⟩
      change (if writeOutcome reply msize io = .ok () then _ else _ : List Frame).countP _ = _
      split
      · cases reply with
        | none => rfl
        | some message =>
          simp [hd]
      · rfl
  · right
    refine ⟨?_, ?_⟩
    · rcases hwr with hwr | ⟨origin, reply, msize, at_, hwr⟩
      · rw [hwr]
      · rw [hwr, List.countP_cons]
        have ho := how origin (by rw [at_]; rfl) d
        simp [ho]
    · obtain ⟨job₁, hj₁, hm⟩ := hst.moves h hj
      rw [hj', Option.some.injEq] at hj₁
      rw [← hj₁] at hm
      have hs := hm.stage
      have hk := hk d job job' hj hj'
      generalize job.stage = stage at hs hk ⊢
      generalize job'.stage = stage' at hs hk ⊢
      cases hs with
      | stays => exact ⟨rfl, rfl⟩
      | advances before after =>
        obtain ⟨hd, hf, -⟩ := Stage.no_result_of_early before
        obtain ⟨hd', hf', -⟩ := Stage.no_result_of_early after
        rw [hd, hf, hd', hf']
        exact ⟨rfl, rfl⟩
      | panics before =>
        obtain ⟨hd, hf, -⟩ := Stage.no_result_of_early before
        rw [hd, hf]
        exact ⟨rfl, rfl⟩
      | completes result msize => exact ⟨rfl, rfl⟩
      | finishes reply msize outcome =>
        have hfn := hk ⟨reply, msize, rfl⟩
        cases hfn

theorem written_writeSection {worker : Bool} {msize : UInt32}
    {io : Result Unit} : (c.writeSection n worker reply msize io).written =
      if writeOutcome reply msize io = .ok () then
        (reply.map (⟨.job n, ·⟩)).toList ++ c.written else c.written := rfl

theorem stage_writeSection {worker : Bool} {msize : UInt32}
    {io : Result Unit} (hj : c.jobs[n]? = some job)
    (hj' : (c.writeSection n worker reply msize io).jobs[n]? = some job') :
    job'.stage = .finished reply (writeOutcome reply msize io) := by
  change (c.setStage n _).jobs[n]? = _ at hj'
  rw [setStage, getElem?_onJob, if_pos rfl, hj, map_some, Option.some.injEq] at hj'
  rw [← hj']

namespace Answering
variable (ha : Answering config history c) (hst : c.Step limit action c') (h : c.Sound)
include ha hst h

/-- A request keeps its entry in the session until the session is asked for its reply. -/
theorem live_step (hn : c.Numbered)
    (hd : ∀ m, c.reader = .admitting m → m.messageType = TVERSION → c.active = [])
    (hj' : c'.jobs[d]? = some job') (he' : job'.stage.early = true)
    (hop : job'.withdrawn = false) (hup : c'.reader.ended = none) :
    c'.session.IsLive job'.request.key := by
  have hen : c.reader.ended = none := by
    by_contra hne
    have hl := hst.ended h (Option.isSome_iff_ne_none.mpr hne)
    rw [hup] at hl
    cases hl
  rcases hst.cases h hj' with ⟨job, hj, hm⟩ | hbg
  · have he : job.stage.early = true := hm.early he'
    have hsl : job.withdrawn = false := by
      cases hw : job.withdrawn with
      | false => rfl
      | true => exact (hop.symm.trans (hm.withdrawn hw)).symm
    rw [hm.request]
    exact hst.live h hn hd hj hj' he he' hop hup (ha.live d job hj he hsl hen)
  · obtain ⟨m, isAsync, at_, rfl, hev⟩ := hbg.admitted
    have had := h.admission at_
    rw [hev] at had
    rw [session_admitSection]
    exact had.live_new

/-- When the loop ends without a failed write, no request is under way but those whose tags were
taken away. -/
theorem closed_step (run : (connection config).Run history c) (hdl : c.Delivers action)
    (hen : c'.reader.ended.isSome = true) :
    Broken config (action :: history) c' ∨ ∀ (d : Nat) (job : Job), c'.jobs[d]? = some job →
      job.stage.early = true → job.withdrawn = true := by
  by_cases hup : c.reader.ended = none
  · rcases hst.ends_cases hup hen with ⟨e, hf, he⟩ | ⟨hjb, hc⟩
    · exact .inl ⟨e, [], action, history, c, rfl, run, hf, he⟩
    · refine .inr fun d job hj hea => ?_
      rw [hjb] at hj
      rcases hc with ⟨result, rfl⟩ | ⟨hi, hat⟩
      · exact hdl job (List.mem_of_getElem? hj) hea
      · rw [Stage.not_early_of_over (h.over_of_idle hi hat hj)] at hea
        cases hea
  · rcases ha.closed (Option.isSome_iff_ne_none.mpr hup) with hb | hal
    · exact .inl (hb.later h hst)
    · refine .inr fun d job' hj' hea => ?_
      rcases hst.cases h hj' with ⟨job, hj, hm⟩ | hbg
      · exact hm.withdrawn (hal d job hj (hm.early hea))
      · obtain ⟨m, isAsync, at_, _⟩ := hbg.admitted
        rw [at_] at hup
        exact absurd rfl hup

/-- The session answers a request that it still has. -/
theorem unanswered_step (hj' : c'.jobs[d]? = some job') (hnn : job'.stage.unanswered = true) :
    job'.withdrawn = true ∨ Broken config (action :: history) c' := by
  rcases hst.cases h hj' with ⟨job, hj, hm⟩ | hbg
  · have hl (hb : job.withdrawn = true ∨ Broken config history c) :
        job'.withdrawn = true ∨ Broken config (action :: history) c' :=
      hb.imp hm.withdrawn (·.later h hst)
    apply hl
    have hs := hm.stage
    have hb := ha.unanswered d job hj
    have hlv := ha.live d job hj
    generalize hss : job.stage = stage at hs hb hlv
    generalize job'.stage = stage' at hs hnn
    cases hs with
    | stays => exact hb hnn
    | advances before after =>
      rw [(Stage.no_result_of_early after).2.2] at hnn
      cases hnn
    | panics before => cases hnn
    | completes result msize =>
      -- A live request would have got a reply.
      by_contra hop
      obtain ⟨hno, hnb⟩ := not_or.mp hop
      have hup : c.reader.ended = none := by
        by_contra hen
        rcases ha.closed (Option.isSome_iff_ne_none.mpr hen) with hb | hal
        · exact hnb hb
        · exact hno (hal d job hj (by rw [hss]; rfl))
      have hso := (c.session.completion job.request result).replied.1
        (hlv rfl (Bool.not_eq_true _ ▸ hno) hup)
      cases hr : (complete c.session job.request result).1 with
      | none =>
        rw [hr] at hso
        cases hso
      | some reply =>
        rw [hr] at hnn
        cases hnn
    | finishes reply msize outcome =>
      cases reply with
      | none => exact hb rfl
      | some reply => cases outcome <;> cases hnn
  · rw [(Stage.no_result_of_early hbg.early).2.2] at hnn
    cases hnn

theorem tagged_step {reply : RMessage} {msize : UInt32} (hj' : c'.jobs[d]? = some job')
    (hr : job'.stage = .completed (some reply) msize) : reply.tag = job'.request.tag := by
  rcases hst.cases h hj' with ⟨job, hj, hm⟩ | hbg
  · rw [hm.request]
    have hs := hm.stage
    have hb := ha.tagged d job reply msize hj
    rw [hr] at hs
    generalize job.stage = stage at hs hb
    generalize hot : Stage.completed (some reply) msize = stage' at hs
    cases hs with
    | stays => exact hb hot.symm
    | advances before after =>
      rw [← hot] at after
      cases after
    | panics before => cases hot
    | completes result msize' =>
      rw [Stage.completed.injEq] at hot
      exact (c.session.completion job.request result).replied.2 reply hot.1.symm
    | finishes => cases hot
  · have he := hbg.early
    rw [hr] at he
    cases he

section
variable (how : ∀ origin, c.reader.origin = some origin → ∀ n, origin ≠ .job n)
include how

/-- Only a write of the reader fails, and it ends the loop. -/
theorem failed_step (run : (connection config).Run history c) (hdl : c.Delivers action)
    (hj' : c'.jobs[d]? = some job') (hfl : job'.stage.failed = true) :
    Broken config (action :: history) c' := by
  rcases hst.cases h hj' with ⟨job, hj, hm⟩ | hbg
  · rcases hst.finish_cases h how hj hj' with
      ⟨reply, msize, io, rfl, hs, rfl⟩ | ⟨-, -, hsm⟩
    · rw [stage_writeSection hj hj'] at hfl
      cases ho : writeOutcome reply msize io with
      | ok _ =>
        rw [ho] at hfl
        cases reply <;> cases hfl
      | error e =>
        -- The error of a worker's write is excluded; the reader returns its own.
        cases hwk : job.worker with
        | false =>
          refine ⟨e, [], _, history, c, rfl, run, ⟨job, reply, msize, hj, hwk, hs, ho⟩, ?_⟩
          change (Reader.resume (writeOutcome reply msize io)).ended = _
          rw [ho]
          rfl
        | true =>
          cases reply with
          | none => cases ho
          | some reply =>
            have hwr := hdl job reply msize hj hwk hs
            change writeRMessageChecked msize reply io = .error e at ho
            rw [hwr] at ho
            cases ho
    · rw [hsm] at hfl
      exact (ha.failed d job hj hfl).later h hst
  · rw [(Stage.no_result_of_early hbg.early).2.1] at hfl
    cases hfl

section
variable (hfd : ∀ frame ∈ c.written, ∀ d, frame.origin = .job d → d < c.jobs.length)
include hfd

theorem framed_step {frame : Frame} (hf : frame ∈ c'.written) (hor : frame.origin = .job d)
    (hj' : c'.jobs[d]? = some job') : frame.message.tag = job'.request.tag := by
  -- A frame of before has its request, which keeps its tag.
  have hol (hf : frame ∈ c.written) : frame.message.tag = job'.request.tag := by
    have hlt := hfd frame hf d hor
    obtain ⟨job₁, hj₁, hm⟩ := hst.moves h (List.getElem?_eq_getElem hlt)
    rw [hj', Option.some.injEq] at hj₁
    rw [hj₁, hm.request]
    exact ha.framed frame hf d _ hor (List.getElem?_eq_getElem hlt)
  rcases hst.write_cases h with ⟨n, job, reply, msize, io, -, hj, hs, rfl⟩ |
    ⟨hwr | ⟨origin, reply, msize, at_, hwr⟩, -⟩
  · rw [written_writeSection] at hf
    split at hf
    · cases reply with
      | none => exact hol hf
      | some reply =>
        rcases List.mem_cons.mp hf with rfl | hf
        · cases hor
          obtain ⟨job₁, hj₁, hm⟩ := hst.moves h hj
          rw [hj', Option.some.injEq] at hj₁
          rw [hj₁, hm.request]
          exact ha.tagged _ job reply msize hj hs
        · exact hol hf
    · exact hol hf
  · exact hol (hwr ▸ hf)
  · rw [hwr] at hf
    rcases List.mem_cons.mp hf with rfl | hf
    · exact absurd hor (how origin (by rw [at_]; rfl) d)
    · exact hol hf

/-- A request has a frame on the stream when its reply was written. -/
theorem once_step (hj' : c'.jobs[d]? = some job') :
    c'.written.countP (·.origin = .job d) = job'.stage.delivered.toNat := by
  rcases hst.cases h hj' with ⟨job, hj, hm⟩ | hbg
  · rcases hst.finish_cases h how hj hj' with
      ⟨reply, msize, io, rfl, hs, rfl⟩ | ⟨hcn, hsm, -⟩
    · have hz := ha.once d job hj
      rw [hs] at hz
      change _ = 0 at hz
      rw [stage_writeSection hj hj', written_writeSection]
      cases ho : writeOutcome reply msize io with
      | error e =>
        rw [if_neg (by nofun), hz]
        cases reply <;> rfl
      | ok _ =>
        rw [if_pos rfl]
        cases reply with
        | none => exact hz
        | some reply =>
          rw [map_some, Option.toList_some, List.singleton_append, List.countP_cons, hz]
          simp [Stage.delivered]
    · rw [hcn, hsm]
      exact ha.once d job hj
  · rw [(Stage.no_result_of_early hbg.early).1]
    obtain ⟨m, isAsync, -, rfl, -⟩ := hbg.admitted
    have hwr : (c.admitSection m isAsync).written = c.written :=
      (onEvent_frame _ _ _ _).2.2.2.2
    rw [hwr]
    apply List.countP_eq_zero.mpr
    intro frame hf hor
    have hlt := hfd frame hf d (of_decide_eq_true hor)
    rw [hbg.number] at hlt
    exact Nat.lt_irrefl _ hlt

/-- One step that meets the condition. -/
theorem step (run : (connection config).Run history c) (hdl : c.Delivers action) (hn : c.Numbered)
    (hd : ∀ m, c.reader = .admitting m → m.messageType = TVERSION → c.active = []) :
    Answering config (action :: history) c' where
  live _ _ := ha.live_step hst h hn hd
  closed := ha.closed_step hst h run hdl
  unanswered _ _ := ha.unanswered_step hst h
  failed _ _ := ha.failed_step hst h how run hdl
  tagged _ _ _ _ := ha.tagged_step hst h
  framed _ hf _ _ := ha.framed_step hst h how hfd hf
  once _ _ := ha.once_step hst h how hfd

end

end

end Answering

theorem answering (run : ((connection config).restrict Delivers).Run history c)
    (hg : c.generations < 2 ^ 64) : Answering config history c := by
  revert hg
  apply run.invariant (I := fun history c => c.generations < 2 ^ 64 → Answering config history c)
  · intro c hc _
    rw [hc]
    refine ⟨fun _ _ hj => ?_, fun hj => ?_, fun _ _ hj => ?_, fun _ _ hj => ?_,
      fun _ _ _ _ hj => ?_, fun _ hj => ?_, fun _ _ hj => ?_⟩
    all_goals cases hj
  · intro _ c _ c' hr ih hst hg
    have hb := Nat.lt_of_le_of_lt hst.2.generations_le hg
    have hor := version_ordered hr.of_restrict
    apply (ih hb).step hst.2 (sound hr.of_restrict) _ hor.filed hr.of_restrict hst.1
    · exact numbered hr.of_restrict hb
    · exact fun m => drained hr.of_restrict
    · exact fun origin ho => (hor.awaited origin ho).own

/-- A step of a thread that has the writer or takes it. -/
def Action.writing : Action → Bool
  | sizes | sends _ | locks _ | completes _ | writes .. => true
  | _ => false

/-- A request whose handler has returned can take the writer, or whoever has it can go on. -/
theorem Sound.not_stuck (h : c.Sound) (hj : c.jobs[d]? = some job)
    (hr : job.stage.returns = true) (ho : job.stage.ended = false) :
    ∃ action c', action.writing = true ∧ c.Step limit action c' := by
  cases hw : c.writer with
  | none =>
    have hf := (h.exclusive.held d).not.mp (by rw [hw]; nofun)
    rw [holds_eq hj] at hf
    cases hs : job.stage with
    | returned result => exact ⟨_, _, rfl, .locks d hj hs hw⟩
    | locked | completed =>
      rw [hs] at hf
      exact absurd rfl hf
    | finished =>
      rw [hs] at ho
      cases ho
    | admitted | performing | panicked =>
      rw [hs] at hr
      cases hr
  | some holder =>
    cases holder with
    | reader =>
      have hh := h.exclusive.replying.mp hw
      cases hrd : c.reader with
      | replyLocked origin reply => exact ⟨_, _, rfl, .sizes hrd⟩
      | replySized origin reply msize => exact ⟨_, _, rfl, .sends (.ok ()) hrd⟩
      | _ =>
        rw [hrd] at hh
        cases hh
    | job e =>
      have hh := (h.exclusive.held e).mp hw
      unfold holds at hh
      cases how : c.jobs[e]? with
      | none =>
        rw [how] at hh
        cases hh
      | some owner =>
        rw [how] at hh
        change owner.stage.holds = true at hh
        cases hs : owner.stage with
        | locked result => exact ⟨_, _, rfl, .completes e how hs⟩
        | completed reply msize => exact ⟨_, _, rfl, .writes e (.ok ()) how hs⟩
        | _ =>
          rw [hs] at hh
          cases hh

/-- While the generations last, the replies of workers can be written and the loop does not end
for another reason than a failed write, a request whose handler has returned is on its way to the
stream, has one frame there, had its tag taken away by a flush or a version request, or belongs to
a loop that a failed write has ended. -/
theorem every_request_answered (run : ((connection config).restrict Delivers).Run history c)
    (hgen : c.generations < 2 ^ 64) (hjob : c.jobs[d]? = some job)
    (hreturns : job.stage.returns = true) :
    (job.stage.ended = false ∧
      ∃ action c', action.writing = true ∧ (connection config).step c action c') ∨
    (c.written.countP (·.origin = .job d) = 1 ∧
      ∀ frame ∈ c.written, frame.origin = .job d → frame.message.tag = job.request.tag) ∨
    job.withdrawn = true ∨ Broken config history c := by
  have ha := answering run hgen
  cases ho : job.stage.ended with
  | false => exact .inl ⟨rfl, (sound run.of_restrict).not_stuck hjob hreturns ho⟩
  | true =>
    right
    cases hs : job.stage with
    | finished reply outcome =>
      cases outcome with
      | error e => exact .inr (.inr (ha.failed d job hjob (by rw [hs]; rfl)))
      | ok _ =>
        cases reply with
        | none => exact .inr (ha.unanswered d job hjob (by rw [hs]; rfl))
        | some reply =>
          left
          refine ⟨?_, fun frame hf hor => ha.framed frame hf d job hor hjob⟩
          rw [ha.once d job hjob, hs]
          rfl
    | panicked =>
      rw [hs] at hreturns
      cases hreturns
    | _ =>
      rw [hs] at ho
      cases ho

/-- A worker's reply to an attach request, on the stream. -/
theorem every_request_answered_attach : ∃ history c job,
    ((connection .default).restrict Delivers).Run history c ∧ c.jobs[0]? = some job ∧
      c.written.countP (·.origin = .job 0) = 1 ∧
      ∀ frame ∈ c.written, frame.origin = .job 0 → frame.message.tag = job.request.tag := by
  have hv : ((greeting 8192 ++ spawning (attach 0) none ++ replying 0 refused).foldlM
      (nextDelivered ServerConfig.default.maxAsyncRequests) (new .default)).map
      (fun c => (decide (c.generations < 2 ^ 64), c.reader.ended,
        c.jobs[0]?.map fun job => (job.stage.returns, job.stage.ended, job.withdrawn))) =
      some (true, none, some (true, true, false)) := by
    decide +kernel
  obtain ⟨c, hc, hv⟩ := map_eq_some_iff.mp hv
  simp only [Prod.mk.injEq] at hv
  obtain ⟨hl, hup, hj⟩ := hv
  obtain ⟨job, hj, hs⟩ := map_eq_some_iff.mp hj
  simp only [Prod.mk.injEq] at hs
  obtain ⟨hr, hen, hw⟩ := hs
  have run := System.Run.foldlM (M := (connection .default).restrict Delivers) (.start rfl)
    (fun _ _ _ _ h => step_of_nextDelivered h) hc
  refine ⟨_, c, job, run, hj, ?_⟩
  rcases every_request_answered run (of_decide_eq_true hl) hj hr with h | h | h | h
  · cases hen.symm.trans h.1
  · exact h
  · cases hw.symm.trans h
  · obtain ⟨e, _, _, _, _, _, _, _, he⟩ := h
    cases hup.symm.trans he

/-! ### A worker drops the error of its write -/

/-- An error whose text does not fit a message of that size. -/
def longError : Error := ⟨List.replicate 300 97⟩

/-- A worker's reply that does not fit is dropped, and the connection goes on. -/
theorem worker_reply_dropped : ∃ history c job,
    (connection .default).Run history c ∧ c.generations < 2 ^ 64 ∧ c.reader = .reading ∧
      c.jobs[0]? = some job ∧ job.stage.returns = true ∧ job.stage.ended = true ∧
      job.withdrawn = false ∧ c.written.countP (·.origin = .job 0) = 0 := by
  have hv : ((greeting MIN_MSIZE ++ spawning (attach 0) none ++
      replying 0 (.error longError)).foldlM (next ServerConfig.default.maxAsyncRequests)
      (new .default)).map (fun c => (decide (c.generations < 2 ^ 64 ∧ c.reader = .reading ∧
        c.written.countP (·.origin = .job 0) = 0),
        c.jobs[0]?.map fun job => (job.stage.returns, job.stage.ended, job.withdrawn))) =
      some (true, some (true, true, false)) := by
    decide +kernel
  obtain ⟨c, hc, hv⟩ := map_eq_some_iff.mp hv
  obtain ⟨hst, hj⟩ := Prod.mk.inj hv
  obtain ⟨hl, hrd, hcn⟩ := of_decide_eq_true hst
  obtain ⟨job, hj, hs⟩ := map_eq_some_iff.mp hj
  simp only [Prod.mk.injEq] at hs
  obtain ⟨hr, hen, hw⟩ := hs
  have run := System.Run.foldlM (M := connection .default) (.start rfl)
    (fun _ _ _ _ h => step_of_next h) hc
  exact ⟨_, c, job, run, hl, hrd, hj, hr, hen, hw, hcn⟩

end Conn
end R9P.Connection
