import R9P.Connection.Answers

/-!
# The server core behind a connection

Library `Connection`. The threads of a connection share one session under a lock. Whatever way they
interleave, it is a session that the server core reaches when it is called alone, so that what
holds in every run of the core holds behind every connection.
-/

namespace R9P.Connection.Conn
open Base Wire Server

variable {config : ServerConfig} {limit : Nat} {c c' : Conn} {action : Action}

/-- The core reaches the session of the connection, except between the two halves of a reset, and
has dispatched its requests. -/
def Refines (config : ServerConfig) (c : Conn) : Prop :=
  ∃ calls w, (server config).Run calls w ∧ (∀ job ∈ c.jobs, job.request ∈ w.issued) ∧
    (c.session = w.session ∧ c.generations = w.generations ∨
      c.reader.stale = true ∧ c.session = w.session.withRequests w.session.requests.reset ∧
        c.generations = w.generations + 1)

/-- A request was there before the step, or the step dispatched it. -/
theorem Step.request_mem (hst : c.Step limit action c') (h : c.Sound) {job' : Job}
    (hj : job' ∈ c'.jobs) : (∃ job ∈ c.jobs, job'.request = job.request) ∨
      ∃ m isAsync, c.reader = .admitting m ∧ c' = c.admitSection m isAsync ∧
        (admitMessage c.session m).1 = .dispatch job'.request := by
  obtain ⟨d, hd⟩ := List.mem_iff_getElem?.mp hj
  rcases hst.before h hd with ⟨job, hb⟩ | hb
  · obtain ⟨job₁, hj₁, hm⟩ := hst.moves h hb
    cases hd.symm.trans hj₁
    exact .inl ⟨job, List.mem_of_getElem? hb, hm.request⟩
  · exact .inr hb.admitted

/-- The core stands for both halves of a reset by admitting the version request twice. -/
theorem onAdmit_twice (w : World) {m : TMessage} (hm : m.messageType = TVERSION) :
    (w.onAdmit m).onAdmit m = World.onAdmit
      ⟨w.session.withRequests w.session.requests.reset, w.issued, w.generations + 1⟩ m := by
  cases m with
  | version tag msize version =>
    obtain ⟨_, _, _, _, hf⟩ := Session.reset_frame
      (rfl : (w.session.resetForVersion msize version).2 = _)
    simp only [World.onAdmit_version]
    rw [World.resetForVersion_congr]
    · rw [hf]
      rfl
    · rw [hf]
      rfl
  | _ => cases hm

theorem Refines.step (hr : c.Refines config) (h : c.Sound) (hst : c.Step limit action c')
    (ho : c'.reader.ended = none) : c'.Refines config := by
  obtain ⟨calls, w, run, hi, hs⟩ := hr
  by_cases ha : ∃ m isAsync, c.reader = .admitting m ∧ c' = c.admitSection m isAsync
  · obtain ⟨m, isAsync, at_, rfl⟩ := ha
    obtain ⟨calls', run'⟩ : ∃ calls', (server config).Run calls'
        (World.onAdmit ⟨c.session, w.issued, c.generations⟩ m) := by
      rcases hs with ⟨hs, hg⟩ | ⟨hsl, hs, hg⟩
      · rw [hs, hg]
        exact ⟨_, run.next (.admits m)⟩
      · rw [at_] at hsl
        rw [hs, hg, ← onAdmit_twice w (of_decide_eq_true hsl)]
        exact ⟨_, (run.next (.admits m)).next (.admits m)⟩
    refine ⟨calls', _, run', fun job' hj => ?_, .inl ⟨session_admitSection .., ?_⟩⟩
    · rcases hst.request_mem h hj with ⟨job, hm, he⟩ | ⟨_, _, hat, _, he⟩
      · rw [he]
        exact List.mem_append_right _ (hi job hm)
      · cases at_.symm.trans hat
        rw [World.onAdmit, he]
        exact List.mem_cons_self
    · exact generations_admitSection ..
  · have hi' (job' : Job) (hj : job' ∈ c'.jobs) : job'.request ∈ w.issued := by
      rcases hst.request_mem h hj with ⟨job, hm, he⟩ | ⟨m, isAsync, at_, hc, -⟩
      · rw [he]
        exact hi job hm
      · exact absurd ⟨m, isAsync, at_, hc⟩ ha
    have hk (hsl : c.reader.stale = true) : c'.reader.stale = true := by
      by_contra hn
      have hb := (hst.not_stale_before h (eq_false_of_ne_true hn)).resolve_right ha
      exact absurd (hb.symm.trans hsl) Bool.false_ne_true
    rcases hst.session_cases with ⟨hs', hg⟩ | ⟨next, at_, rfl⟩ | hc | ⟨n, job, result, hj, -, rfl⟩
    · refine ⟨calls, w, run, hi', ?_⟩
      rw [hs', hg]
      exact hs.imp_right (And.imp_left hk)
    · cases next with
      | close result => cases ho
      | proceed m =>
        rcases hs with ⟨hs, hg⟩ | ⟨hsl, -⟩
        · exact ⟨calls, w, run, hi', .inr ⟨rfl,
            congrArg (fun s => s.withRequests s.requests.reset) hs, congrArg (· + 1) hg⟩⟩
        · rw [at_] at hsl
          cases hsl
    · exact absurd hc ha
    · rcases hs with ⟨hs, hg⟩ | ⟨hsl, hs, hg⟩
      · have hji := hi job (List.mem_of_getElem? hj)
        exact ⟨_, _, run.next (.completes job.request result hji), hi', .inl
          ⟨congrArg (fun s => (complete s job.request result).2) hs, hg⟩⟩
      · -- No request is live any more, and the session stays.
        have hd : ¬ c.session.IsLive job.request.key := by
          rw [hs]
          rintro ⟨⟩
        exact ⟨calls, w, run, hi', .inr
          ⟨hsl, (congrArg Prod.snd (complete_eq_of_dead hd result)).trans hs, hg⟩⟩

/-- Until `serve_loop` returns, in every interleaving of the threads, the session of a connection is
one that the server core reaches alone, and the core has dispatched the requests. -/
theorem connection_refines_core {history : List Action} (run : (connection config).Run history c)
    (ho : c.reader.ended = none) : c.Refines config := by
  revert ho
  apply run.invariant (I := fun _ c => c.reader.ended = none → c.Refines config)
  · rintro c rfl _
    exact ⟨[], .new config, .start rfl, List.forall_mem_nil _, .inl ⟨rfl, rfl⟩⟩
  · intro _ c _ c' hr ih hst ho
    have hb : c.reader.ended = none := by
      by_contra hn
      have he := hst.ended (sound hr) (Option.isSome_iff_ne_none.mpr hn)
      rw [ho] at he
      cases he
    exact (ih hb).step (sound hr) hst ho

/-- A worker performs an attach request, which the core has dispatched. -/
theorem connection_refines_core_spawned : ∃ history c, (connection .default).Run history c ∧
    c.jobs.map (fun job => (job.request.tag, job.worker)) = [(1, true)] ∧
      c.Refines .default := by
  have hv : ((greeting 8192 ++ spawning (attach 0) none).foldlM
      (next ServerConfig.default.maxAsyncRequests) (new .default)).map
      (fun c => (c.jobs.map fun job => (job.request.tag, job.worker), c.reader.ended)) =
      some ([(1, true)], none) := by
    decide +kernel
  obtain ⟨c, hc, hv⟩ := Option.map_eq_some_iff.mp hv
  obtain ⟨hj, hup⟩ := Prod.mk.inj hv
  have run := System.Run.foldlM (M := connection .default) (.start rfl)
    (fun _ _ _ _ h => step_of_next h) hc
  exact ⟨_, c, run, hj, connection_refines_core run hup⟩

end R9P.Connection.Conn
