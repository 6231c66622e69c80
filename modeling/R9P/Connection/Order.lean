import R9P.Connection.Exchange

/-!
# The order of replies on the stream

Library `Connection`. The reader answers a flush or a version request itself. Nothing that
such an answer covers is written behind it: `Ordered` carries this along a run, for a
property of requests that a step cannot undo and that no request with a reply in hand has.
-/

namespace R9P.Connection
open Base Wire Server

theorem Stage.not_early_of_over {stage : Stage} (hov : stage.ended = true) :
    stage.early = false := by
  cases stage with
  | finished | panicked => rfl
  | _ => cases hov

namespace Conn

variable {config : ServerConfig} {limit : Nat} {history : List Action} {c c' : Conn}
  {action : Action} {d n : Nat} {job job' : Job}
  {covers : Origin → Nat → ServerRequest → Prop} {mute : Session → Job → Prop} {s : Session}

/-- What the reader is about to answer is no request of the backend, and covers only requests
that have the property, or a reply in hand until the reader has the writer. -/
structure Awaits (covers : Origin → Nat → ServerRequest → Prop) (mute : Session → Job → Prop)
    (c : Conn) (origin : Origin) : Prop where
  own : ∀ n, origin ≠ .job n
  within : ∀ d r, covers origin d r → d < c.jobs.length
  silenced : ∀ (d : Nat) (job : Job), c.jobs[d]? = some job → covers origin d job.request →
    mute c.session job ∨ ∃ reply msize, job.stage = .completed reply msize

/-- The requests that an answer covers write nothing behind it. -/
structure Ordered (covers : Origin → Nat → ServerRequest → Prop) (mute : Session → Job → Prop)
    (c : Conn) : Prop where
  /-- A frame of a request names one that was dispatched. -/
  filed : ∀ frame ∈ c.written, ∀ d, frame.origin = .job d → d < c.jobs.length
  within : ∀ frame ∈ c.written, ∀ d r, covers frame.origin d r → d < c.jobs.length
  silenced : ∀ frame ∈ c.written, ∀ (d : Nat) (job : Job), c.jobs[d]? = some job →
    covers frame.origin d job.request → mute c.session job
  apart : c.written.Pairwise fun later earlier => ∀ (d : Nat) (job : Job), later.origin = .job d →
    c.jobs[d]? = some job → ¬ covers earlier.origin d job.request
  awaited : ∀ origin, c.reader.origin = some origin → Awaits covers mute c origin

theorem Step.length_le (hst : c.Step limit action c') (h : c.Sound) :
    c.jobs.length ≤ c'.jobs.length := by
  by_contra hlt
  have hl : c'.jobs.length < c.jobs.length := by omega
  obtain ⟨job', hjb', -⟩ := hst.moves h (List.getElem?_eq_getElem hl)
  have hlt' := (List.getElem?_eq_some_iff.mp hjb').1
  omega

/-- A request with its reply in hand keeps it until it is over. -/
theorem Job.Moves.completed (h : Job.Moves s job job') {reply : Option RMessage}
    {msize : UInt32} (hs : job.stage = .completed reply msize) :
    (∃ reply msize, job'.stage = .completed reply msize) ∨ job'.stage.ended = true := by
  have hmv := h.stage
  rw [hs] at hmv
  generalize job'.stage = stage' at hmv
  cases hmv with
  | stays => exact .inl ⟨reply, msize, rfl⟩
  | advances before after | panics before => cases before
  | finishes => exact .inr rfl

/-- What is over stays over. -/
theorem Job.Moves.ended (h : Job.Moves s job job') (hov : job.stage.ended = true) :
    job'.stage.ended = true := by
  have hmv := h.stage
  generalize job.stage = stage at hmv hov
  generalize job'.stage = stage' at hmv
  cases hmv with
  | stays => exact hov
  | advances before after =>
    rw [Stage.not_early_of_over hov] at before
    cases before
  | panics before => rfl
  | completes => cases hov
  | finishes => rfl

/-- One step keeps the order, provided that it keeps the property of every request and that
an answer taken up by it covers only requests that have the property or their reply. -/
theorem Ordered.step (ho : c.Ordered covers mute) (hst : c.Step limit action c') (h : c.Sound)
    (hjb : ∀ n d r, ¬ covers (.job n) d r)
    (hov : ∀ s (job : Job), job.stage.ended = true → mute s job)
    (hmt : ∀ s (job : Job) reply msize, mute s job → job.stage ≠ .completed (some reply) msize)
    (hk : ∀ (d : Nat) (job job' : Job), c.jobs[d]? = some job → c'.jobs[d]? = some job' →
      mute c.session job → mute c'.session job')
    (ht : ∀ m isAsync origin, c.reader = .admitting m → c' = c.admitSection m isAsync →
      c'.reader.origin = some origin → Awaits covers mute c' origin) :
    c'.Ordered covers mute := by
  have hl := hst.length_le h
  -- A covered request is an old one.
  have hol {origin : Origin} (hwt : ∀ d r, covers origin d r → d < c.jobs.length)
      {d : Nat} {job' : Job} (hjb' : c'.jobs[d]? = some job')
      (hcv : covers origin d job'.request) : ∃ job, c.jobs[d]? = some job ∧
        covers origin d job.request ∧ Job.Moves c.session job job' := by
    have hlt := hwt d _ hcv
    obtain ⟨job₁, hjb₁, hmv⟩ := hst.moves h (List.getElem?_eq_getElem hlt)
    rw [hjb', Option.some.injEq] at hjb₁
    rw [← hjb₁] at hmv
    refine ⟨_, List.getElem?_eq_getElem hlt, ?_, hmv⟩
    rwa [← hmv.request]
  have hsl {frame : Frame} (hf : frame ∈ c.written) (d : Nat) (job' : Job)
      (hjb' : c'.jobs[d]? = some job') (hcv : covers frame.origin d job'.request) :
      mute c'.session job' := by
    obtain ⟨job, hj, hc, -⟩ := hol (ho.within frame hf) hjb' hcv
    exact hk d job job' hj hjb' (ho.silenced frame hf d job hj hc)
  -- While the reader has the writer, no request has a reply in hand.
  have han {origin : Origin} {reply : RMessage} {msize : UInt32}
      (at_ : c.reader = .replySized origin reply msize) (d : Nat) (job : Job)
      (hj : c.jobs[d]? = some job) (hcv : covers origin d job.request) :
      mute c.session job := by
    have ha := ho.awaited origin (by rw [at_]; rfl)
    rcases ha.silenced d job hj hcv with hm | ⟨reply, msize, hs⟩
    · exact hm
    · have how : c.writer = some .reader := h.exclusive.replying.mpr (by rw [at_]; rfl)
      have hh := (h.exclusive.held d).mpr (by rw [holds_eq hj, hs]; rfl)
      rw [how] at hh
      cases hh
  have hap : c.written.Pairwise fun later earlier => ∀ (d : Nat) (job : Job),
      later.origin = .job d → c'.jobs[d]? = some job → ¬ covers earlier.origin d job.request := by
    apply ho.apart.imp_of_mem
    intro later earlier _ he hb d job' hor hjb' hcv
    obtain ⟨job, hj, hc, -⟩ := hol (ho.within earlier he) hjb' hcv
    exact hb d job hor hj hc
  have haw (origin : Origin) (ho' : c'.reader.origin = some origin) :
      Awaits covers mute c' origin := by
    rcases hst.origin h ho' with hb | ⟨m, isAsync, at_, hc'⟩
    · have ha := ho.awaited origin hb
      refine ⟨ha.own, fun d r hcv => Nat.lt_of_lt_of_le (ha.within d r hcv)
        hl, ?_⟩
      intro d job' hjb' hcv
      obtain ⟨job, hj, hc, hmv⟩ := hol ha.within hjb' hcv
      rcases ha.silenced d job hj hc with hm | ⟨reply, msize, hs⟩
      · exact .inl (hk d job job' hj hjb' hm)
      · exact (hmv.completed hs).symm.imp_left (hov _ _)
    · exact ht m isAsync origin at_ hc' ho'
  have hfl (frame : Frame) (hf : frame ∈ c.written) (d : Nat)
      (hor : frame.origin = .job d) : d < c'.jobs.length :=
    Nat.lt_of_lt_of_le (ho.filed frame hf d hor) hl
  have hwt (frame : Frame) (hf : frame ∈ c.written) (d : Nat) (r : ServerRequest)
      (hcv : covers frame.origin d r) : d < c'.jobs.length :=
    Nat.lt_of_lt_of_le (ho.within frame hf d r hcv) hl
  have hwr := hst.written
  generalize hw : c'.written = written at hwr
  cases hwr with
  | nothing =>
    refine ⟨?_, ?_, ?_, ?_, haw⟩
    · rwa [hw]
    · rwa [hw]
    · rw [hw]
      exact fun _ => hsl
    · rwa [hw]
  | @reply d job reply msize dispatched stage =>
    -- The request has its reply in hand, so no earlier answer covers it.
    refine ⟨?_, ?_, ?_, ?_, haw⟩
    · rw [hw, List.forall_mem_cons]
      refine ⟨?_, hfl⟩
      intro e hor
      cases hor
      exact Nat.lt_of_lt_of_le (List.getElem?_eq_some_iff.mp dispatched).1 hl
    · rw [hw, List.forall_mem_cons]
      exact ⟨fun e r hcv => absurd hcv (hjb _ _ _), hwt⟩
    · rw [hw, List.forall_mem_cons]
      exact ⟨fun e _ _ hcv => absurd hcv (hjb _ _ _), fun _ => hsl⟩
    · rw [hw, List.pairwise_cons]
      refine ⟨?_, hap⟩
      intro earlier he e job' hor hjb' hcv
      cases hor
      obtain ⟨job₀, hj, hc, -⟩ := hol (ho.within earlier he) hjb' hcv
      rw [dispatched, Option.some.injEq] at hj
      rw [← hj] at hc
      exact hmt _ _ _ _ (ho.silenced earlier he _ job dispatched hc) stage
  | @answer origin reply msize at_ =>
    have ha := ho.awaited origin (by rw [at_]; rfl)
    refine ⟨?_, ?_, ?_, ?_, haw⟩
    · rw [hw, List.forall_mem_cons]
      exact ⟨fun e hor => absurd hor (ha.own e), hfl⟩
    · rw [hw, List.forall_mem_cons]
      exact ⟨fun e r hcv => Nat.lt_of_lt_of_le (ha.within e r hcv) hl, hwt⟩
    · rw [hw, List.forall_mem_cons]
      refine ⟨?_, fun _ => hsl⟩
      intro e job' hjb' hcv
      obtain ⟨job, hj, hc, -⟩ := hol ha.within hjb' hcv
      exact hk e job job' hj hjb' (han at_ e job hj hc)
    · rw [hw, List.pairwise_cons]
      exact ⟨fun _ _ e _ hor => absurd hor (ha.own e), hap⟩

theorem ordered_new (config : ServerConfig) : (new config).Ordered covers mute := by
  refine ⟨nofun, nofun, nofun, .nil, ?_⟩
  intro origin ho
  cases ho

/-! ### Version requests -/

/-- The answer to a version request covers every request dispatched before it. -/
def versionCovers (origin : Origin) (d : Nat) (_ : ServerRequest) : Prop :=
  match origin with
  | .version before => d < before
  | _ => False

/-- Once a version request is let through, every thread is done. -/
theorem Sound.over_of_idle (h : c.Sound) (hi : c.active = []) (hr : c.reader.attends = none)
    (hjb : c.jobs[d]? = some job) : job.stage.ended = true := by
  by_contra hn
  rcases h.seated.placed d job hjb (Bool.eq_false_iff.mpr hn) with ⟨-, hm⟩ | ⟨-, hat⟩
  · rw [hi] at hm
    cases hm
  · rw [hr] at hat
    cases hat

/-- When a version request is admitted, every thread is done. -/
theorem drained (run : (connection config).Run history c) {m : TMessage}
    (at_ : c.reader = .admitting m) (hm : m.messageType = TVERSION) : c.active = [] := by
  revert at_
  apply run.invariant (I := fun _ c => c.reader = .admitting m → c.active = [])
  · intro c hc at_
    rw [hc] at at_
    cases at_
  · intro _ c _ c' hr ih hst at_
    have ht := hst.turns (sound hr)
    generalize c'.reader = r at ht at_
    cases ht with
    | stays active => exact List.subset_nil.mp (ih at_ ▸ active)
    | reads _ ordinary =>
      cases at_
      exact absurd hm ordinary
    | proceeds _ idle => exact idle
    | works _ hr =>
      rw [at_] at hr
      cases hr
    | admits _ _ taken =>
      rw [at_] at taken
      rcases taken with hr | hr <;> cases hr
    | _ => cases at_

/-- The replies stay behind no version request. -/
theorem version_ordered (run : (connection config).Run history c) :
    c.Ordered versionCovers fun _ job => job.stage.ended = true := by
  apply run.invariant (I := fun _ c => c.Ordered versionCovers fun _ job => job.stage.ended = true)
  · intro c hc
    rw [hc]
    exact ordered_new config
  · intro _ c _ c' hr ho hst
    have h := sound hr
    apply ho.step hst h
    · exact fun _ _ _ hcv => hcv
    · exact fun _ _ hov => hov
    · intro _ job reply msize hov hs
      rw [hs] at hov
      cases hov
    · intro d job job' hjb hjb' hov
      obtain ⟨job₁, hjb₁, hmv⟩ := hst.moves h hjb
      rw [hjb', Option.some.injEq] at hjb₁
      rw [← hjb₁] at hmv
      exact hmv.ended hov
    · rintro m isAsync origin at_ rfl ho'
      have ht := takes_admitSection isAsync (h.admission at_)
      generalize (admitMessage c.session m).1 = event at ht
      generalize c.admitSection m isAsync = c' at ht ho' ⊢
      cases ht with
      | version same reader =>
        rw [reader] at ho'
        cases ho'
        have hi := drained hr at_ rfl
        refine ⟨nofun, ?_, ?_⟩
        · intro d r hcv
          rw [same]
          exact hcv
        · intro d job hjb _
          rw [same] at hjb
          exact .inl (h.over_of_idle hi (by rw [at_]; rfl) hjb)
      | flush flagged reader | other ordinary same reader =>
        rw [reader] at ho'
        cases ho'
        exact ⟨nofun, fun _ _ hcv => hcv.elim, fun _ _ _ hcv => hcv.elim⟩
      | dispatch isAsync' flagged appended reader =>
        rw [reader] at ho'
        cases isAsync' <;> cases ho'

/-! ### Flushes -/

/-- The answer to a flush covers every request dispatched before it with the tag it names. -/
def flushCovers (origin : Origin) (d : Nat) (r : ServerRequest) : Prop :=
  match origin with
  | .flush oldtag before => d < before ∧ r.tag = oldtag
  | _ => False

/-- The request has no reply in hand and will not get one. -/
structure Silent (s : Session) (job : Job) : Prop where
  dead : job.stage.early = true → ¬ s.IsLive job.request.key
  empty : ∀ reply msize, job.stage ≠ .completed (some reply) msize

theorem silent_of_over (hov : job.stage.ended = true) : Silent s job := by
  constructor
  · intro he
    rw [Stage.not_early_of_over hov] at he
    cases he
  · intro reply msize hs
    rw [hs] at hov
    cases hov

/-- A step makes no silent request speak. -/
theorem Step.silent (hst : c.Step limit action c') (h : c.Sound) (hn : c.Numbered)
    (hjb : c.jobs[d]? = some job) (hjb' : c'.jobs[d]? = some job')
    (hsl : Silent c.session job) : Silent c'.session job' := by
  obtain ⟨job₁, hjb₁, hmv⟩ := hst.moves h hjb
  rw [hjb', Option.some.injEq] at hjb₁
  rw [← hjb₁] at hmv
  have hs := hmv.stage
  obtain ⟨hd, hem⟩ := hsl
  generalize job.stage = stage at hs hd hem
  constructor
  · intro he
    rw [hmv.request]
    apply hst.dead h hn (hn.older d job hjb)
    generalize job'.stage = stage' at hs he
    cases hs with
    | stays => exact hd he
    | advances before after => exact hd before
    | panics before | completes | finishes => cases he
  · intro reply msize hr
    rw [hr] at hs
    generalize ho : Stage.completed (some reply) msize = stage' at hs
    cases hs with
    | stays => exact hem reply msize ho.symm
    | advances before after => rw [← ho] at after; cases after
    | panics before => cases ho
    | completes result msize' =>
      -- The session was asked for a request that is not live.
      rw [complete_eq_of_dead (hd rfl)] at ho
      cases ho
    | finishes => cases ho

/-- The replies stay behind no flush of their tag, while the generations last. -/
theorem flush_ordered (run : (connection config).Run history c) (hg : c.generations < 2 ^ 64) :
    c.Ordered flushCovers Silent := by
  revert hg
  apply run.invariant (I := fun _ c => c.generations < 2 ^ 64 → c.Ordered flushCovers Silent)
  · intro c hc _
    rw [hc]
    exact ordered_new config
  · intro _ c _ c' hr ih hst hg
    have h := sound hr
    have hb := Nat.lt_of_le_of_lt hst.generations_le hg
    have hn := numbered hr hb
    apply (ih hb).step hst h
    · exact fun _ _ _ hcv => hcv
    · exact fun _ _ => silent_of_over
    · exact fun _ _ reply msize hsl => hsl.empty reply msize
    · exact fun _ _ _ hjb hjb' => hst.silent h hn hjb hjb'
    · rintro m isAsync origin at_ rfl ho'
      have ha := h.admission at_
      have ht := takes_admitSection isAsync ha
      have hss := session_admitSection (c := c) m isAsync
      generalize he : (admitMessage c.session m).1 = event at ht ha
      generalize (admitMessage c.session m).2 = s' at ha hss
      generalize c.admitSection m isAsync = c' at ht ho' hss ⊢
      cases ht with
      | version same reader | other ordinary same reader =>
        rw [reader] at ho'
        cases ho'
        exact ⟨nofun, fun _ _ hcv => hcv.elim, fun _ _ _ hcv => hcv.elim⟩
      | @flush tag oldtag reply outcome _ flagged reader =>
        rw [reader] at ho'
        cases ho'
        refine ⟨nofun, fun d r hcv => ?_, fun d job hjb hcv => ?_⟩
        · rw [flagged.length_eq]
          exact hcv.1
        · -- The flush has taken the tag away from every request that had it.
          have hd : ¬ c'.session.IsLive job.request.key := by
            rw [hss]
            cases ha with
            | flushed begins old found =>
              intro hl
              exact (Session.isLive_cancel.mp hl).1 hcv.2.symm
          by_cases hcm : ∃ reply msize, job.stage = .completed reply msize
          · exact .inr hcm
          · refine .inl ⟨fun _ => hd, fun reply msize hs => hcm ⟨_, _, hs⟩⟩
      | dispatch isAsync' flagged appended reader =>
        rw [reader] at ho'
        cases isAsync' <;> cases ho'

/-! ### The order -/

/-- What an answer covers is written before it. -/
theorem Ordered.before (h : c.Ordered covers mute) {newer older : List Frame} {answer frame : Frame}
    (hw : c.written = newer ++ answer :: older) (hf : frame ∈ newer) (hor : frame.origin = .job d) :
    ∃ job, c.jobs[d]? = some job ∧ ¬ covers answer.origin d job.request := by
  have hap := h.apart
  rw [hw, List.pairwise_append] at hap
  have hlt := h.filed frame (by rw [hw]; exact List.mem_append_left _ hf) d hor
  have hjb : c.jobs[d]? = some c.jobs[d] := List.getElem?_eq_getElem hlt
  exact ⟨_, hjb, hap.2.2 frame hf answer List.mem_cons_self d _ hor hjb⟩

/-! ### A tag used again behind its flush -/

/-- The session of a plain client whose version request found the counter at a generation. -/
def greeted (generation : UInt64) : Session :=
  ((World.atGeneration .default generation).resetForVersion 8192 (utf8 "9P2000")).2

/-- An attach request with tag 1. -/
def attach (fid : Fid) : TMessage := .attach 1 fid NOFID (utf8 "glenda") []

/-- A request is flushed while its worker is busy, and its tag is used again. -/
def reusing : List Action :=
  spawning (attach 0) none ++ serving (.flush 2 1) ++ spawning (attach 1) none

/-- The answer to the version request. -/
def welcome : RMessage := .version NOTAG 8192 (utf8 "9P2000")

private theorem welcome_fits : writeRMessageChecked 8192 welcome (.ok ()) = .ok () := by
  decide +kernel

-- Behind the reset of the request table, a version request starts all over.
private theorem admit_hello (hc : s.config = .default) :
    admitMessage (s.withRequests s.requests.reset) (.version NOTAG 8192 (utf8 "9P2000")) =
      (.reply welcome, greeted (saturatingSucc s.requests.nextGeneration)) := by
  have hr : (s.withRequests s.requests.reset).resetForVersion 8192 (utf8 "9P2000") =
      (World.atGeneration .default (saturatingSucc s.requests.nextGeneration)).resetForVersion
        8192 (utf8 "9P2000") := World.resetForVersion_congr _ _ hc rfl
  change versionReply NOTAG ((s.withRequests s.requests.reset).resetForVersion 8192 _) = _
  rw [hr]
  rfl

/-- A version request on a connection without requests, answered. -/
theorem next_greeting (hc : s.config = .default) (generations : Nat)
    (written : List Frame) : (greeting 8192).foldlM (next ServerConfig.default.maxAsyncRequests)
      { new .default with session := s, generations := generations, written := written } = some
      { new .default with
        session := greeted (saturatingSucc s.requests.nextGeneration)
        generations := generations + 2
        written := ⟨.version 0, welcome⟩ :: written } := by
  have ha := admit_hello hc
  have hs : (greeted (saturatingSucc s.requests.nextGeneration)).msize = 8192 := rfl
  simp [greeting, next, new, TMessage.messageType, resetSection, Next.resume, raise, withdraw,
    admitSection, ha, onEvent, replySection, welcome_fits, hs, Session.usesGeneration,
      Reader.resume]

/-- Version requests alone use up the generations. -/
theorem run_greeted (n : Nat) : ∃ history written, (connection .default).Run history
    { new .default with
      session := greeted (UInt64.ofNat (min (2 * n + 1) (2 ^ 64 - 1)))
      generations := 2 * (n + 1)
      written := written } := by
  have hn : ∀ c, ∀ action ∈ greeting 8192, ∀ c',
      c.next ServerConfig.default.maxAsyncRequests action = some c' →
        (connection .default).step c action c' := fun _ _ _ _ h => step_of_next h
  induction n with
  | zero => exact ⟨_, _, .foldlM (.start rfl) hn (next_greeting rfl 0 [])⟩
  | succ n ih =>
    obtain ⟨history, written, run⟩ := ih
    have hc : saturatingSucc
        (greeted (UInt64.ofNat (min (2 * n + 1) (2 ^ 64 - 1)))).requests.nextGeneration =
        UInt64.ofNat (min (2 * (n + 1) + 1) (2 ^ 64 - 1)) := by
      change saturatingSucc (saturatingSucc (UInt64.ofNat (min (2 * n + 1) (2 ^ 64 - 1)))) = _
      rw [World.saturatingSucc_ofNat_min, World.saturatingSucc_ofNat_min]
      rfl
    have hg := next_greeting (s := greeted (UInt64.ofNat (min (2 * n + 1) (2 ^ 64 - 1)))) rfl
      (2 * (n + 1)) written
    rw [hc] at hg
    exact ⟨_, _, run.foldlM hn hg⟩

/-- The reply of the backend, an error. -/
def refused : Result ServerCompletion := .error (.fromStatic "permission denied")

/-- The error on the stream. -/
def refusal : RMessage := errorReply 1 (.fromStatic "permission denied")

/-- Behind the answer to a version request stands no reply to a request dispatched before it.
While the generations last, behind the answer to a flush stands no reply to a request that had
been dispatched with the tag it names. -/
theorem replies_before_answers (run : (connection config).Run history c) :
    (c.generations < 2 ^ 64 → ∀ newer oldtag before reply older,
      c.written = newer ++ ⟨.flush oldtag before, reply⟩ :: older →
      ∀ frame ∈ newer, ∀ (d : Nat) (job : Job), frame.origin = .job d → c.jobs[d]? = some job →
        job.request.tag = oldtag → before ≤ d) ∧
    ∀ newer before reply older, c.written = newer ++ ⟨.version before, reply⟩ :: older →
      ∀ frame ∈ newer, ∀ d, frame.origin = .job d → before ≤ d := by
  constructor
  · intro hg newer oldtag before reply older hw frame hf d job hor hjb ht
    obtain ⟨job₀, hjb₀, hn⟩ := (flush_ordered run hg).before hw hf hor
    rw [hjb, Option.some.injEq] at hjb₀
    rw [← hjb₀] at hn
    by_contra hlt
    exact hn ⟨Nat.lt_of_not_le hlt, ht⟩
  · intro newer before reply older hw frame hf d hor
    obtain ⟨_, _, hn⟩ := (version_ordered run).before hw hf hor
    exact Nat.le_of_not_lt hn

/-- A tag is flushed and used again, and only the later request gets its reply. -/
theorem replies_before_answers_reused : ∃ history c,
    (connection .default).Run history c ∧ c.generations < 2 ^ 64 ∧
      c.written.map Frame.origin = [.job 1, .flush 1 1, .version 0] ∧ 1 ≤ 1 ∧ 0 ≤ 1 := by
  have hv : ((greeting 8192 ++ reusing ++ replying 1 refused).foldlM
      (next ServerConfig.default.maxAsyncRequests) (new .default)).map
      (fun c => (decide (c.generations < 2 ^ 64), c.written, c.jobs[1]?.map (·.request.tag))) =
      some (true, [⟨.job 1, refusal⟩, ⟨.flush 1 1, .flush 2⟩, ⟨.version 0, welcome⟩], some 1) := by
    decide +kernel
  obtain ⟨c, hc, hv⟩ := Option.map_eq_some_iff.mp hv
  simp only [Prod.mk.injEq, decide_eq_true_eq] at hv
  obtain ⟨hl, hw, hjb⟩ := hv
  obtain ⟨job, hjb, ht⟩ := Option.map_eq_some_iff.mp hjb
  have run := System.Run.foldlM (M := connection .default) (.start rfl)
    (fun _ _ _ _ h => step_of_next h) hc
  obtain ⟨hf, hvr⟩ := replies_before_answers run
  refine ⟨_, c, run, hl, by rw [hw]; rfl, ?_, ?_⟩
  · exact hf hl [⟨.job 1, refusal⟩] 1 1 (.flush 2) [⟨.version 0, welcome⟩] hw _
      List.mem_cons_self 1 job rfl hjb ht
  · exact hvr [⟨.job 1, refusal⟩, ⟨.flush 1 1, .flush 2⟩] 0 welcome [] hw _ List.mem_cons_self 1 rfl

/-- With the generations used up, the worker of a flushed request answers in the name of the
request that has its tag now. -/
theorem reply_behind_flush : ∃ history c newer oldtag before reply older frame d job,
    (connection .default).Run history c ∧
      c.written = newer ++ ⟨.flush oldtag before, reply⟩ :: older ∧ frame ∈ newer ∧
      frame.origin = .job d ∧ c.jobs[d]? = some job ∧ job.request.tag = oldtag ∧ d < before := by
  obtain ⟨history, written, run⟩ := run_greeted (2 ^ 63)
  let last : Conn := { new .default with
    session := greeted (UInt64.ofNat (min (2 * 2 ^ 63 + 1) (2 ^ 64 - 1)))
    generations := 2 * (2 ^ 63 + 1) }
  have hv : ((reusing ++ replying 0 refused).foldlM
      (next ServerConfig.default.maxAsyncRequests) last).map
      (fun c => (c.written, c.jobs[0]?.map (·.request.tag))) =
      some ([⟨.job 0, refusal⟩, ⟨.flush 1 1, .flush 2⟩], some 1) := by
    decide +kernel
  obtain ⟨c, hc, hv⟩ := Option.map_eq_some_iff.mp hv
  obtain ⟨hw, hjb⟩ := Prod.mk.inj hv
  obtain ⟨job, hjb, ht⟩ := Option.map_eq_some_iff.mp hjb
  have hl : (reusing ++ replying 0 refused).foldlM (next ServerConfig.default.maxAsyncRequests)
      (last.behind written) = some (c.behind written) := by
    rw [foldlM_behind, hc, Option.map_some]
  refine ⟨_, c.behind written, [⟨.job 0, refusal⟩], 1, 1, .flush 2, written, ⟨.job 0, refusal⟩, 0,
    job, run.foldlM (fun _ _ _ _ h => step_of_next h) hl, ?_, List.mem_cons_self, rfl, hjb,
    ht, Nat.one_pos⟩
  show c.written ++ written = _
  rw [hw]
  rfl

end Conn
end R9P.Connection
