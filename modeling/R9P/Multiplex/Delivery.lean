import R9P.Multiplex.Routes

/-!
# Every step keeps the routes

Library `Multiplex`. One lemma for each kind of critical section: moves of a single call,
tags given back, registrations, what the reader takes in, senders used up, and allocations
out of reach of every tag in use.
-/

namespace R9P.Multiplex
open Base Wire Server Client

variable {s s' : Mux} {i j : Nat} {call call' : Call} {tag : Tag}

/-! ### One call and the shared state -/

/-- What a step by one call may do to the shared state: others keep their senders, the
requests that still wait for them, and the reader. -/
structure Shares (s : Mux) (i : Nat) (protocol : Client) (responses : ResponseState)
    (reader : Reader) : Prop where
  targets : ∀ tag oldtag : Tag, protocol.flushTargets[tag]? = some oldtag →
    s.protocol.flushTargets[tag]? = some oldtag
  waiter_back : ∀ (tag : Tag) (j : Nat), j ≠ i → responses.waiters[tag]? = some j →
    s.responses.waiters[tag]? = some j
  waiter : ∀ j c, j ≠ i → s.calls j = some c → s.responses.waiters[c.tag]? = some j →
    responses.waiters[c.tag]? = some j
  live : ∀ j c, j ≠ i → s.calls j = some c → c.flushed = false →
    Uses s.responses s.reader j c → s.protocol.pending.live[c.tag]? ≠ none →
    protocol.pending.live[c.tag]? ≠ none
  error : responses.terminalError = none → s.responses.terminalError = none
  up : Up responses reader → Up s.responses s.reader
  reader_back : ∀ j r, j ≠ i → reader = .holding j r → s.reader = .holding j r
  reader : ∀ j r, j ≠ i → s.reader = .holding j r → reader = .holding j r

theorem Shares.refl (s : Mux) (i : Nat) : Shares s i s.protocol s.responses s.reader where
  targets _ _ h := h
  waiter_back _ _ _ h := h
  waiter _ _ _ _ h := h
  live _ _ _ _ _ _ h := h
  error h := h
  up h := h
  reader_back _ _ _ h := h
  reader _ _ _ h := h

variable {protocol : Client} {responses : ResponseState} {reader : Reader} {next : Phase}

section
variable (h : Inv s) (caller : s.calls i = some call)
include h caller

/-- A step by one call. -/
theorem Inv.set (shares : Shares s i protocol responses reader) (same : call.Same call')
    (hop : call'.phase.Open → call.phase.Open)
    (hus : Uses responses reader i call' → Uses s.responses s.reader i call)
    (hw : ∀ tag : Tag, responses.waiters[tag]? = some i →
      call'.tag = tag ∧ call'.phase ≠ .allocated) (hh : ∀ r, reader = .holding i r →
      ∃ m, call'.journey = .taken m ∧ r = .of m ∧ m.tag = call'.tag)
    (hst : reader = .stopped → responses.terminalError ≠ none)
    (hcs : responses.terminalError ≠ none → responses.waiters = ∅)
    (hcl : CallInv protocol responses reader i call') :
    Inv (Mux.set ⟨protocol, responses, s.calls, reader⟩ i call') := by
  apply h.of_follows
  · constructor
    · intro j c' hj
      by_cases hji : j = i
      · rw [hji, set_self] at hj
        cases hj
        rw [hji]
        exact ⟨call, caller, same, hop, hus⟩
      · rw [set_ne _ _ hji] at hj
        refine ⟨c', hj, ⟨rfl, rfl, rfl⟩, id, ?_⟩
        intro hu
        rcases hu with hph | hwt | hfl | ⟨r, hr⟩
        · exact .inl hph
        · exact .inr (.inl (shares.waiter_back _ j hji hwt))
        · exact .inr (.inr (.inl hfl))
        · exact .inr (.inr (.inr ⟨r, shares.reader_back j r hji hr⟩))
    · exact shares.targets
  · intro tag j hj
    by_cases hji : j = i
    · rw [hji] at hj ⊢
      rw [set_self]
      exact ⟨call', rfl, hw tag hj⟩
    · rw [set_ne _ _ hji]
      exact h.waiter tag j (shares.waiter_back tag j hji hj)
  · intro j r hr
    by_cases hji : j = i
    · rw [hji] at hr ⊢
      rw [set_self]
      obtain ⟨m, hm⟩ := hh r hr
      exact ⟨call', m, rfl, hm⟩
    · rw [set_ne _ _ hji]
      exact h.held j r (shares.reader_back j r hji hr)
  · exact hst
  · exact hcs
  · intro j c hj
    by_cases hji : j = i
    · rw [hji, set_self] at hj
      cases hj
      rw [hji]
      exact hcl
    · rw [set_ne _ _ hji] at hj
      have hc := h.call j c hj
      apply hc.frame
      · exact shares.waiter j c hji hj
      · intro hf hph
        apply shares.live j c hji hj hf
        rcases hph with hp | hp | hp
        · exact .inl (by rw [hp]; trivial)
        · exact .inl (by rw [hp]; trivial)
        · exact .inr (.inr (.inl hp))
      · exact shares.error
      · exact shares.up
      · intro _ _ r
        exact shares.reader j r hji

/-- A sender of a call waits for its tag. -/
theorem Inv.waits_for (hwt : s.responses.waiters[tag]? = some i) :
    call.tag = tag ∧ call.phase ≠ .allocated := by
  obtain ⟨c, hc, hw⟩ := h.waiter tag i hwt
  cases caller.symm.trans hc
  exact hw

/-- The response that is held for a call is its own. -/
theorem Inv.held_for {r : ClientResponse} (hr : s.reader = .holding i r) :
    ∃ m, call.journey = .taken m ∧ r = .of m ∧ m.tag = call.tag := by
  obtain ⟨c, m, hc, hh⟩ := h.held i r hr
  cases caller.symm.trans hc
  exact ⟨m, hh⟩

/-- A step by one call that touches nothing shared. -/
theorem Inv.turn (same : call.Same call') (hop : call'.phase.Open → call.phase.Open)
    (hus : Uses s.responses s.reader i call' → Uses s.responses s.reader i call)
    (hph : call.phase ≠ .allocated → call'.phase ≠ .allocated)
    (hjr : ∀ m, call.journey = .taken m → call'.journey = .taken m)
    (hcl : CallInv s.protocol s.responses s.reader i call') : Inv (s.set i call') := by
  apply h.set caller (.refl s i) same hop hus
  · intro tag hwt
    obtain ⟨htg, hne⟩ := h.waits_for caller hwt
    exact ⟨same.tag.trans htg, hph hne⟩
  · intro r hr
    obtain ⟨m, hm, hof, htg⟩ := h.held_for caller hr
    exact ⟨m, hjr m hm, hof, htg.trans same.tag.symm⟩
  · exact h.stopped
  · exact h.closed
  · exact hcl

end

/-! ### Moves of a call -/

-- The inbox of a call whose response has not been read holds no response.
private theorem CallInv.no_response (h : CallInv protocol responses reader i call)
    (hjr : ∀ m, call.journey ≠ .taken m) (j : Nat) (r : ClientResponse) :
    .response j r ∉ call.inbox := by
  intro hmm
  obtain ⟨_, m, hm, _⟩ := h.own j r hmm
  exact hjr m hm

-- A call whose response is on its way has written its frame.
private theorem CallInv.not_early (h : CallInv protocol responses reader i call)
    (hjr : call.journey ≠ .unsent) : ¬ call.phase.Early :=
  fun her => hjr (h.unsent her)

private theorem Phase.Early.holds {phase : Phase} (h : phase.Early) :
    phase.HoldsTag ∧ phase.Open := by
  cases phase with
  | _ => first | exact ⟨trivial, trivial⟩ | exact h.elim

/-- A call goes into a phase in which it neither waits nor is about to send. -/
private theorem CallInv.leave {protocol' : Client}
    (h : CallInv protocol responses reader i call)
    (hn : next ≠ .allocated ∧ next ≠ .registered ∧ next ≠ .waiting)
    (hu : next.Early → call.journey = .unsent)
    (hl : call.flushed = false → call.journey.InFlight → protocol'.pending.live[call.tag]? ≠ none)
    (hr : call.journey ≠ .unsent → call.timedOut = false → call.flushed = false →
      Up responses reader → call.Delivered i)
    (hex : next = .expired → call.timedOut = true)
    (hen : next.Ended → responses.terminalError ≠ none) :
    CallInv protocol' responses reader i { call with phase := next } :=
  { h with
    unsent := hu
    quiet := fun hp => absurd hp hn.1
    waits := fun hp => absurd hp (not_or.mpr hn.2)
    pending := fun hf hp => by
      rcases hp with hp | hp | hp
      · exact absurd hp hn.1
      · exact absurd hp hn.2.1
      · exact hl hf hp
    clean := fun hp => absurd hp hn.2.1
    route := fun hj ht hf hup => .inl (hr hj ht hf hup)
    expired := hex
    ended := hen }

variable {error : Error}

section

variable (h : Inv s)
include h

section
variable (caller : s.calls i = some call)
include caller

/-- The frame is written. -/
theorem Inv.writes (phase : call.phase = .registered) :
    Inv (s.set i { call with phase := .waiting, journey := .sent }) := by
  have hc := h.call i call caller
  have her : call.phase.Early := by
    rw [phase]
    trivial
  have hu := hc.unsent her
  apply h.turn caller
  · exact ⟨rfl, rfl, rfl⟩
  · intro _
    exact her.holds.2
  · intro _
    exact .inl her.holds.1
  · intro _
    nofun
  · intro m hm
    rw [hu] at hm
    cases hm
  · exact {
      hc with
      unsent := nofun
      answered := nofun
      quiet := nofun
      waits := fun _ => hc.waits (.inl phase)
      pending := fun hf _ => hc.pending hf (.inr (.inl phase))
      own := fun j r hmm => absurd hmm (hc.no_response (by rw [hu]; exact nofun) j r)
      clean := nofun
      route := fun _ _ hf hup =>
        .inr ⟨rfl, hc.clean phase hf hup.1, .inl trivial⟩
      expired := nofun
      ended := nofun }

/-- A call whose frame is not written stops short of writing it. -/
theorem Inv.halts (her : call.phase.Early)
    (hn : next = .broken error ∨ next = .refused error ∧ s.responses.terminalError ≠ none) :
    Inv (s.set i { call with phase := next }) := by
  have hc := h.call i call caller
  have hu := hc.unsent her
  have ho : next ≠ .allocated ∧ next ≠ .registered ∧ next ≠ .waiting := by
    rcases hn with rfl | ⟨rfl, _⟩ <;> exact ⟨nofun, nofun, nofun⟩
  apply h.turn caller
  · exact ⟨rfl, rfl, rfl⟩
  · intro _
    exact her.holds.2
  · intro _
    exact .inl her.holds.1
  · intro _
    exact ho.1
  · intro m hm
    exact hm
  · apply hc.leave ho (fun _ => hu) (fun hf hp => hc.pending hf (.inr (.inr hp)))
    · intro hjr
      exact absurd hu hjr
    · rcases hn with rfl | ⟨rfl, _⟩ <;> nofun
    · intro hen
      rcases hn with rfl | ⟨rfl, hsm⟩
      · cases hen
      · exact hsm

/-- The server answers, or leaves a flushed request alone. -/
theorem Inv.served (sent : call.journey = .sent) {journey : Journey}
    (ha : ∀ m, journey = .answered m → m.tag = call.tag)
    (hfl : call.flushed = false → journey.InFlight) :
    Inv (s.set i { call with journey := journey }) := by
  have hc := h.call i call caller
  have hfy : call.journey.InFlight := by
    rw [sent]
    trivial
  apply h.turn caller
  · exact ⟨rfl, rfl, rfl⟩
  · exact id
  · intro _
    exact .inr (.inr (.inl hfy))
  · exact id
  · intro m hm
    rw [sent] at hm
    cases hm
  · have hs : call.journey ≠ .unsent := by
      rw [sent]
      nofun
    exact {
      hc with
      unsent := fun her => absurd her (hc.not_early hs)
      answered := ha
      pending := fun hf _ => hc.pending hf (.inr (.inr hfy))
      own := fun j r hmm => absurd hmm (hc.no_response (by rw [sent]; exact nofun) j r)
      route := fun _ htm hf hup => by
        rcases hc.route hs htm hf hup with hd | hw
        · exact .inl hd
        · exact .inr ⟨hw.1, hw.2.1, .inl (hfl hf)⟩ }

/-- The wait is over: a delivery has come, the time is up, or the transport is gone. -/
theorem Inv.leaves (phase : call.phase = .waiting) {timedOut : Bool}
    (hn : next = .expired ∨ next = .aborted ∨ next = .concluding ∨ next = .returned)
    (htd : timedOut = false → call.timedOut = false)
    (hex : next = .expired → timedOut = true ∧ call.inbox = [])
    (ha : next = .aborted → s.responses.terminalError ≠ none)
    (ho : call.inbox ≠ [] ∨ timedOut = true ∨ s.responses.terminalError ≠ none) :
    Inv (s.set i { call with phase := next, timedOut := timedOut }) := by
  have hc := h.call i call caller
  have ho' : ¬ next.Early ∧ next ≠ .allocated ∧ next ≠ .registered ∧ next ≠ .waiting := by
    rcases hn with rfl | rfl | rfl | rfl <;> exact ⟨id, nofun, nofun, nofun⟩
  apply h.turn caller
  · exact ⟨rfl, rfl, rfl⟩
  · intro _
    rw [phase]
    trivial
  · intro hus
    rcases hus with hh | hr
    · -- Only a call whose time is up goes on using its tag.
      have hed : next = .expired := by
        rcases hn with rfl | rfl | rfl | rfl
        · rfl
        all_goals cases hh
      exact .inr (.inl (hc.waits (.inr phase) (hex hed).2))
    · exact .inr hr
  · intro _
    exact ho'.2.1
  · intro m hm
    exact hm
  · have hr (hjr : call.journey ≠ .unsent) (htm : timedOut = false) (hf : call.flushed = false)
        (hup : Up s.responses s.reader) : call.Delivered i := by
      rcases hc.route hjr (htd htm) hf hup with hd | hw
      · exact hd
      · rcases ho with hi | ht | he
        · exact absurd hw.2.1 hi
        · rw [htm] at ht
          cases ht
        · exact absurd hup.1 he
    have hc' : CallInv s.protocol s.responses s.reader i { call with timedOut := timedOut } :=
      { hc with
        route := fun hjr htm hf hup => .inl (hr hjr htm hf hup)
        expired := fun hph => nomatch phase.symm.trans hph }
    apply hc'.leave ho'.2 (fun hb => absurd hb ho'.1)
      (fun hf hp => hc.pending hf (.inr (.inr hp))) hr (fun hph => (hex hph).1)
    intro hen
    rcases hn with rfl | rfl | rfl | rfl
    · cases hen
    · exact ha rfl
    all_goals cases hen

theorem Inv.turns (turn : Turn s i call call') : Inv (s.set i call') := by
  have hc := h.call i call caller
  cases turn with
  | writes phase => exact h.writes caller phase
  | breaks phase error => exact h.halts caller (by rw [phase]; trivial) (.inl rfl)
  | answers journey htg =>
    apply h.served caller journey
    · intro m hm
      cases hm
      exact htg
    · intro _
      trivial
  | drops journey flushed =>
    apply h.served caller journey
    · nofun
    · intro hf
      rw [flushed] at hf
      cases hf
  | expires phase inbox =>
    apply h.leaves caller phase (.inl rfl)
    · nofun
    · intro _
      exact ⟨rfl, inbox⟩
    · nofun
    · exact .inr (.inl rfl)
  | aborts phase other failed =>
    have hg := (h.call _ _ other).ended (by rw [failed]; trivial)
    apply h.leaves caller phase (.inr (.inl rfl)) id
    · nofun
    · intro _
      exact hg
    · exact .inr (.inr hg)
  | returns phase inbox _ =>
    apply h.leaves caller phase (.inr (.inr (.inr rfl))) id
    · nofun
    · nofun
    · exact .inl (by rw [inbox]; exact List.cons_ne_nil _ _)
  | disconnects phase inbox gone => exact absurd (hc.waits (.inr phase) inbox) gone
  | concludes phase inbox _ =>
    apply h.leaves caller phase (.inr (.inr (.inl rfl))) id
    · nofun
    · nofun
    · exact .inl (by rw [inbox]; exact List.cons_ne_nil _ _)

end

/-! ### Tags given back, and registrations -/

-- A call that still holds its tag holds it alone.
section
variable (caller : s.calls i = some call)
include caller

private theorem Inv.tag_ne (holds : Uses s.responses s.reader i call) {c : Call}
    (hj : s.calls j = some c) (hji : j ≠ i)
    (hus : Uses s.responses s.reader j c) : call.tag ≠ c.tag := by
  intro htg
  exact hji (h.apart hj caller hus holds htg.symm)

/-- A call that is not sent after all gives back its own tag only. -/
theorem Inv.givesUp {phase : Phase} (gives : GivesUp s call phase) :
    Inv ({ s with protocol := s.protocol.abandon call.tag }.set i { call with phase := phase }) :=
      by
  have hc := h.call i call caller
  have hb : call.phase.HoldsTag ∧ call.phase.Early := by
    cases gives with
    | overflows phase _ | withdraws phase _ _ | abandons phase =>
      rw [phase]; exact ⟨trivial, trivial⟩
  have ha : phase = .unencoded ∨
      ∃ error, phase = .failed error ∧ call.phase = .refused error := by
    cases gives with
    | overflows _ _ | withdraws _ _ _ => exact .inl rfl
    | abandons phase => exact .inr ⟨_, rfl, phase⟩
  have ho : phase ≠ .allocated ∧ phase ≠ .registered ∧ phase ≠ .waiting := by
    rcases ha with rfl | ⟨_, rfl, _⟩ <;> exact ⟨nofun, nofun, nofun⟩
  have hu := hc.unsent hb.2
  have hus : Uses s.responses s.reader i call := .inl hb.1
  apply h.set caller
  · exact {
      Shares.refl s i with
      targets := (abandon_retires s.protocol call.tag).targets
      live := fun j c hji hj _ ho hl => by
        rw [abandon_live]
        split
        · exact hl
        · rw [get_erase, if_neg (h.tag_ne caller hus hj hji ho)]
          exact hl }
  · exact ⟨rfl, rfl, rfl⟩
  · intro hop
    rcases ha with rfl | ⟨_, rfl, _⟩ <;> cases hop
  · intro _
    exact hus
  · intro tag hwt
    exact ⟨(h.waits_for caller hwt).1, ho.1⟩
  · intro r hr
    obtain ⟨m, hm, _⟩ := h.held_for caller hr
    rw [hu] at hm
    cases hm
  · exact h.stopped
  · exact h.closed
  · apply hc.leave ho (fun _ => hu)
    · intro _ hp
      rw [hu] at hp
      cases hp
    · intro hjr
      exact absurd hu hjr
    · rcases ha with rfl | ⟨_, rfl, _⟩ <;> nofun
    · intro hen
      rcases ha with rfl | ⟨_, rfl, hrf⟩
      · cases hen
      · exact hc.ended (by rw [hrf]; trivial)

section
variable (phase : call.phase = .allocated)
include phase

/-- While no two calls go by one tag, a registration replaces nobody. -/
theorem Inv.waiters_none : s.responses.waiters[call.tag]? = none := by
  cases hwt : s.responses.waiters[call.tag]? with
  | none => rfl
  | some k =>
    obtain ⟨c, hk, htg, hne⟩ := h.waiter call.tag k hwt
    have hki : k = i := by
      apply h.apart hk caller _ (.inl (by rw [phase]; trivial)) htg
      exact .inr (.inl (by rw [htg]; exact hwt))
    rw [hki, caller] at hk
    cases hk
    exact absurd phase hne

theorem Inv.registers (registered : s.responses.register call.tag i = (.ok (), responses)) :
    Inv ({ s with responses := responses }.set i { call with phase := .registered }) := by
  have hc := h.call i call caller
  have hu : call.journey = .unsent := hc.unsent (by rw [phase]; trivial)
  have hus : Uses s.responses s.reader i call := .inl (by rw [phase]; trivial)
  have hrs : s.responses.terminalError = none ∧
      responses = ⟨s.responses.waiters.insert call.tag i, none⟩ := by
    unfold ResponseState.register at registered
    rw [h.waiters_none caller phase] at registered
    split at registered
    · cases registered
    · next hn =>
      cases registered
      rw [hn]
      exact ⟨rfl, rfl⟩
  obtain ⟨hn, rfl⟩ := hrs
  apply h.set caller
  · exact {
      Shares.refl s i with
      waiter_back := fun tag j hji hwt => by
        rw [get_insert] at hwt
        split at hwt
        · cases hwt
          exact absurd rfl hji
        · exact hwt
      waiter := fun j c hji hj hwt => by
        rw [get_insert, if_neg (h.tag_ne caller hus hj hji (.inr (.inl hwt)))]
        exact hwt
      error := fun _ => hn
      up := fun hup => ⟨hn, hup.2⟩ }
  · exact ⟨rfl, rfl, rfl⟩
  · intro _
    rw [phase]
    trivial
  · intro _
    exact hus
  · intro tag hwt
    refine ⟨?_, nofun⟩
    rw [get_insert] at hwt
    split at hwt
    · next htg => exact htg
    · exact absurd phase (h.waits_for caller hwt).2
  · intro r hr
    obtain ⟨m, hm, _⟩ := h.held_for caller hr
    rw [hu] at hm
    cases hm
  · intro hst
    exact absurd hn (h.stopped hst)
  · intro hsm
    exact absurd rfl hsm
  · exact {
      hc with
      unsent := fun _ => hu
      quiet := nofun
      waits := fun _ _ => by rw [get_insert, if_pos rfl]
      pending := fun hf _ => hc.pending hf (.inl phase)
      clean := fun _ _ _ => hc.quiet phase
      route := fun hjr => absurd hu hjr
      expired := nofun
      ended := nofun }

theorem Inv.unregistered
    (registered : s.responses.register call.tag i = (.error error, responses)) :
    Inv ({ s with responses := responses }.set i { call with phase := .refused error }) := by
  have hrs : s.responses.terminalError ≠ none ∧ responses = s.responses := by
    unfold ResponseState.register at registered
    rw [h.waiters_none caller phase] at registered
    split at registered
    · next hsm =>
      cases registered
      exact ⟨by rw [hsm]; exact nofun, rfl⟩
    · cases registered
  obtain ⟨hsm, rfl⟩ := hrs
  exact h.halts caller (by rw [phase]; trivial) (.inr ⟨rfl, hsm⟩)

end

end

/-! ### The reader -/

variable {m : RMessage} {result : Result ClientResponse}

-- Taking a response frees its tag, and the target of a flush that it answers.
private theorem Inv.keeps_live (caller : s.calls i = some call)
    (journey : call.journey = .answered m)
    (received : s.protocol.Received m result protocol) {c : Call} (hj : s.calls j = some c)
    (hji : j ≠ i) (hf : c.flushed = false) (hus : Uses s.responses s.reader j c)
    (hl : s.protocol.pending.live[c.tag]? ≠ none) :
    protocol.pending.live[c.tag]? ≠ none := by
  intro hn
  have hc := h.call i call caller
  have htg := hc.answered m journey
  obtain ⟨key, hk⟩ := Option.ne_none_iff_exists'.mp hl
  have hol : ¬ Negotiated result := by
    intro hng
    apply hc.real
    rw [← htg]
    exact received.notag hng
  rcases received.only hol c.tag key hk hn with ho | htr
  · have hfl : Uses s.responses s.reader i call :=
      .inr (.inr (.inl (by rw [journey]; trivial)))
    exact h.tag_ne caller hfl hj hji hus (htg.symm.trans ho.symm)
  · have hmr := h.marked hj hus (.inl ⟨m.tag, htr⟩)
    rw [hf] at hmr
    cases hmr

/-- The reader takes a response in: it holds it for the call, fails, or skips what was
flushed. -/
theorem Inv.takesIn (reading : s.reader = .reading) (caller : s.calls i = some call)
    (journey : call.journey = .answered m)
    (received : s.protocol.Received m result protocol)
    (hrd : reader = .holding i (.of m) ∨ (∃ error, reader = .failing error) ∨
      reader = .reading ∧ call.flushed = true) :
    Inv (Mux.set ⟨protocol, s.responses, s.calls, reader⟩ i
      { call with journey := .taken m }) := by
  have hc := h.call i call caller
  have htg := hc.answered m journey
  have hh (k : Nat) (r : ClientResponse) (hr : reader = .holding k r) :
      k = i ∧ r = .of m := by
    rw [hr] at hrd
    rcases hrd with ho | ⟨_, hfl⟩ | ⟨hrs, _⟩
    · cases ho
      exact ⟨rfl, rfl⟩
    · cases hfl
    · cases hrs
  have hs : call.journey ≠ .unsent := by
    rw [journey]
    nofun
  have hlt := hc.not_early hs
  apply h.set caller
  · exact {
      Shares.refl s i with
      targets := received.retires.targets
      live := fun j c hji hj hf hus hl =>
        h.keeps_live caller journey received hj hji hf hus hl
      up := fun hup => ⟨hup.1, by rw [reading]; exact nofun⟩
      reader_back := fun j r hji hr => absurd (hh j r hr).1 hji
      reader := fun j r _ hr => by
        rw [reading] at hr
        cases hr }
  · exact ⟨rfl, rfl, rfl⟩
  · exact id
  · intro _
    exact .inr (.inr (.inl (by rw [journey]; trivial)))
  · intro tag hwt
    have hw := h.waits_for caller hwt
    exact hw
  · intro r hr
    exact ⟨m, rfl, (hh i r hr).2, htg⟩
  · intro hst
    rw [hst] at hrd
    rcases hrd with ho | ⟨_, hfl⟩ | ⟨hrs, _⟩
    · cases ho
    · cases hfl
    · cases hrs
  · exact h.closed
  · exact {
      hc with
      unsent := fun her => absurd her hlt
      answered := nofun
      pending := fun _ hph => by
        rcases hph with hp | hp | hp
        · exact absurd (show call.phase.Early by rw [show call.phase = _ from hp]; trivial) hlt
        · exact absurd (show call.phase.Early by rw [show call.phase = _ from hp]; trivial) hlt
        · cases hp
      own := fun j r hmm => absurd hmm (hc.no_response (by rw [journey]; exact nofun) j r)
      route := fun _ htm hf hup => by
        have hb : Up s.responses s.reader := ⟨hup.1, by rw [reading]; exact nofun⟩
        rcases hc.route hs htm hf hb with hd | hw
        · exact .inl hd
        · right
          refine ⟨hw.1, hw.2.1, .inr ?_⟩
          rcases hrd with ho | ⟨error, hfl⟩ | ⟨_, hmr⟩
          · exact ⟨_, ho⟩
          · exact absurd hfl (hup.2 error)
          · rw [show call.flushed = false from hf] at hmr
            cases hmr }

-- A late response is one to a flushed request.
private theorem Inv.late (caller : s.calls i = some call) (journey : call.journey = .answered m)
    (received : s.protocol.Received m (.error unknownTag) protocol) : call.flushed = true := by
  have hc := h.call i call caller
  have htg := hc.answered m journey
  by_contra hf
  rw [Bool.not_eq_true] at hf
  have hl := hc.pending hf (.inr (.inr (by rw [journey]; trivial)))
  obtain ⟨key, hk⟩ := Option.ne_none_iff_exists'.mp hl
  rw [← htg] at hk
  have hr : m.tag ≠ NOTAG := by
    rw [htg]
    exact hc.real
  exact received.known hr key hk _ rfl rfl

end

/-! ### Senders used up -/

-- Calls whose senders are used up get the delivery, and the reader moves on.
section
variable (h : Inv s)
include h

private theorem Inv.pushed {d : Delivery} {used : Nat → Prop} [DecidablePred used]
    (hcl : ∀ j, s'.calls j = if used j then (s.calls j).map (·.push d) else s.calls j)
    (hwt : ∀ (t : Tag) j, s'.responses.waiters[t]? = some j → s.responses.waiters[t]? = some j)
    (hrd : ∀ j r, s'.reader = .holding j r → s.reader = .holding j r)
    (hpr : s'.protocol = s.protocol)
    (stopped : s'.reader = .stopped → s'.responses.terminalError ≠ none)
    (closed : s'.responses.terminalError ≠ none → s'.responses.waiters = ∅)
    (push : ∀ j c, used j → s.calls j = some c →
      CallInv s.protocol s'.responses s'.reader j (c.push d))
    (keep : ∀ j c, ¬ used j → s.calls j = some c → CallInv s.protocol s'.responses s'.reader j c) :
    Inv s' := by
  have hus (j : Nat) (c c' : Call) (hph : c'.phase = c.phase) (hjr : c'.journey = c.journey)
      (htg : c'.tag = c.tag) (hu : Uses s'.responses s'.reader j c') :
      Uses s.responses s.reader j c := by
    rw [Uses, hph, hjr, htg] at hu
    exact hu.imp_right (Or.imp (hwt _ _) (Or.imp_right fun ⟨r, hr⟩ => ⟨r, hrd j r hr⟩))
  have hcs (j : Nat) (c : Call) (hc : s.calls j = some c) :
      s'.calls j = some (if used j then c.push d else c) := by
    rw [hcl, hc]
    split <;> rfl
  apply h.of_follows
  · refine ⟨fun j c' hj => ?_, by rw [hpr]; exact fun _ _ => id⟩
    rw [hcl] at hj
    split at hj
    · obtain ⟨c, hc, rfl⟩ := Option.map_eq_some_iff.mp hj
      exact ⟨c, hc, ⟨rfl, rfl, rfl⟩, id, hus j c _ rfl rfl rfl⟩
    · exact ⟨c', hj, ⟨rfl, rfl, rfl⟩, id, hus j c' _ rfl rfl rfl⟩
  · intro t j ht
    obtain ⟨c, hc, hw⟩ := h.waiter t j (hwt t j ht)
    exact ⟨_, hcs j c hc, by split <;> exact hw⟩
  · intro j r hr
    obtain ⟨c, m, hc, hm⟩ := h.held j r (hrd j r hr)
    exact ⟨_, m, hcs j c hc, by split <;> exact hm⟩
  · exact stopped
  · exact closed
  · intro j c' hj
    rw [hpr]
    rw [hcl] at hj
    split at hj
    · next hsd =>
      obtain ⟨c, hc, rfl⟩ := Option.map_eq_some_iff.mp hj
      exact push j c hsd hc
    · next hsd => exact keep j c' hsd hj

/-- A sender is used up. -/
theorem Inv.take {d : Delivery} (hrd : ∀ j r, reader = .holding j r → s.reader = .holding j r)
    (hst : reader = .stopped → s.reader = .stopped)
    (hup : (∀ error, reader ≠ .failing error) → ∀ error, s.reader ≠ .failing error)
    (hls : ∀ j c r, s.calls j = some c → s.reader = .holding j r → c.phase = .waiting →
      c.inbox = [] → s.responses.waiters[tag]? ≠ some j → reader = .holding j r)
    (hsn : ∀ k c, s.responses.waiters[tag]? = some k → s.calls k = some c →
      CallInv s.protocol { s.responses with waiters := s.responses.waiters.erase tag } reader k
        (c.push d)) :
    Inv ({ s with reader := reader }.take tag d) := by
  apply h.pushed (calls_take { s with reader := reader } tag d)
  · intro t j hwt
    change (s.responses.waiters.erase tag)[t]? = some j at hwt
    rw [get_erase] at hwt
    split at hwt
    · cases hwt
    · exact hwt
  · exact hrd
  · rfl
  · intro hs
    exact h.stopped (hst hs)
  · intro hsm
    change s.responses.waiters.erase tag = ∅
    rw [h.closed hsm]
    exact erase_eq_self rfl
  · exact hsn
  · intro j c ho hj
    apply (h.call j c hj).frame
    · intro hwt
      change (s.responses.waiters.erase tag)[c.tag]? = some j
      rw [get_erase, if_neg]
      · exact hwt
      · intro htg
        rw [htg] at ho
        exact ho hwt
    · intro _ _ hl
      exact hl
    · exact id
    · intro hn
      exact ⟨hn.1, hup hn.2⟩
    · intro hph hi r hr
      exact hls j c r hj hr hph hi ho

-- A call that has given up waiting returns.
private theorem Inv.ends (caller : s.calls i = some call)
    (phase : call.phase = .expired ∨ call.phase = .aborted ∨ call.phase = .concluding) :
    Inv (s.set i { call with phase := .returned }) := by
  have hc := h.call i call caller
  apply h.turn caller
  · exact ⟨rfl, rfl, rfl⟩
  · nofun
  · intro hus
    rcases hus with hh | hr
    · cases hh
    · exact .inr hr
  · intro _
    nofun
  · intro m hm
    exact hm
  · refine hc.leave ⟨nofun, nofun, nofun⟩ nofun (fun hf hp => hc.pending hf (.inr (.inr hp)))
      (fun hjr htm hf hup => ?_) nofun nofun
    rcases hc.route hjr htm hf hup with hd | hw
    · exact hd
    · rcases phase with hp | hp | hp <;> rw [hw.1] at hp <;> cases hp

/-- Taking a sender back hits the call whose time is up, or one that was flushed. -/
theorem Inv.cancels (caller : s.calls i = some call) (cancels : Cancels call tag error) :
    Inv ((s.setPhase i .returned).take tag (.failure error)) := by
  have hc := h.call i call caller
  have hph : call.phase = .expired ∨ call.phase = .aborted ∨ call.phase = .concluding := by
    cases cancels with
    | expired phase _ => exact .inl phase
    | aborted phase => exact .inr (.inl phase)
    | flushed phase _ => exact .inr (.inr phase)
  have he := h.ends caller hph
  rw [setPhase_eq caller]
  apply he.take
  · intro _ _ hr
    exact hr
  · exact id
  · exact id
  · intro _ _ _ _ hr _ _ _
    exact hr
  · intro k c hwt hk
    obtain ⟨ck, hck, htg, hne⟩ := h.waiter tag k hwt
    have hus : Uses s.responses s.reader k ck := .inr (.inl (by rw [htg]; exact hwt))
    obtain ⟨c', hc', htg', hne'⟩ := he.waiter tag k hwt
    rw [hk] at hc'
    cases hc'
    have hb : c.flushed = true ∨ s.responses.terminalError ≠ none ∨
        c.timedOut = true ∧ c.phase ≠ .registered := by
      cases cancels with
      | expired phase _ =>
        have hki : k = i := h.apart hck caller hus (.inl (by rw [phase]; trivial)) htg
        rw [hki, set_self] at hk
        cases hk
        exact .inr (.inr ⟨hc.expired phase, nofun⟩)
      | aborted phase => exact .inr (.inl (hc.ended (by rw [phase]; trivial)))
      | flushed phase target =>
        have htt : s.Targets ck.tag := by
          rw [htg]
          exact .inr ⟨i, call, caller, target, by rw [phase]; trivial⟩
        have hmr := h.marked hck hus htt
        left
        by_cases hki : k = i
        · rw [hki, set_self] at hk
          rw [hki, caller] at hck
          cases hk
          cases hck
          exact hmr
        · rw [set_ne _ _ hki, hck] at hk
          cases hk
          exact hmr
    apply (he.call k c hk).failure hne'
    · exact id
    · exact hb

/-- The reader hands the response it holds to the call that asked for it. -/
theorem Inv.handsOver {r : ClientResponse} (holding : s.reader = .holding i r) :
    Inv ({ s with reader := .reading }.take r.tag (.response i r)) := by
  obtain ⟨call, m, caller, hjr, hof, htg⟩ := h.held i r holding
  have hc := h.call i call caller
  have hrt : r.tag = call.tag := by
    rw [hof, ClientResponse.tag_of]
    exact htg
  have hlt := hc.not_early (by rw [hjr]; exact nofun)
  apply h.take
  · nofun
  · nofun
  · intro _ error
    rw [holding]
    nofun
  · intro j c r' hj hr hph hi ho
    rw [holding] at hr
    cases hr
    rw [caller] at hj
    cases hj
    rw [hrt] at ho
    exact absurd (hc.waits (.inr hph) hi) ho
  · intro k c hwt hk
    have hki : k = i := by
      obtain ⟨ck, hck, hkt, _⟩ := h.waiter r.tag k hwt
      apply h.apart hck caller _ (.inr (.inr (.inr ⟨r, holding⟩)))
      · rw [hkt]
        exact hrt
      · exact .inr (.inl (by rw [hkt]; exact hwt))
    rw [hki, caller] at hk
    cases hk
    rw [hki]
    exact {
      hc with
      unsent := fun her => absurd her hlt
      quiet := fun hp => absurd (show call.phase.Early by rw [show call.phase = _ from hp]; trivial)
        hlt
      waits := fun _ hi => by
        exact absurd hi (by simp [Call.push])
      own := fun j r' hmm => by
        have hcs : .response j r' ∈ call.inbox ∨ j = i ∧ r' = r := by
          simpa [Call.push] using hmm
        rcases hcs with hol | ⟨rfl, rfl⟩
        · exact hc.own j r' hol
        · exact ⟨rfl, m, hjr, hof⟩
      clean := fun hp => absurd (show call.phase.Early by rw [show call.phase = _ from hp]; trivial)
        hlt
      route := fun hj htm hf hup => by
        left
        have hb : Up s.responses s.reader := ⟨hup.1, by simp [holding]⟩
        rcases hc.route hj htm hf hb with ⟨r', hd⟩ | ⟨_, hi, _⟩
        · exact ⟨r', by simp [Call.push, hd]⟩
        · exact ⟨r, by simp [Call.push, hi]⟩ }

/-- Every sender is used up, and none is registered any more. -/
theorem Inv.failAll (error : Error) (hrd : ∀ j r, reader = .holding j r ↔ s.reader = .holding j r) :
    Inv ({ s with reader := reader }.failAll error) := by
  have hsm : ({ s with reader := reader }.failAll error).responses.terminalError ≠ none := nofun
  apply h.pushed (fun _ => rfl : ∀ j, _ = if j ∈ (s.responses.terminate error).1 then _ else _)
  · intro t j hwt
    cases hwt
  · exact fun j r hr => (hrd j r).mp hr
  · rfl
  · intro _
    exact hsm
  · intro _
    rfl
  · intro j c hsn hc
    obtain ⟨tag, hwt⟩ := mem_terminate.mp hsn
    obtain ⟨c', hc', _, hne⟩ := h.waiter tag j hwt
    rw [hc] at hc'
    cases hc'
    exact (h.call j c hc).failure hne (fun hn => absurd hn hsm) (.inr (.inl hsm)) error
  · intro j c ho hj
    apply (h.call j c hj).frame
    · intro hwt
      exact absurd (mem_terminate.mpr ⟨_, hwt⟩) ho
    · intro _ _ hl
      exact hl
    · intro hn
      exact absurd hn hsm
    · intro hup
      exact absurd hup.1 hsm
    · intro _ _ r hr
      exact (hrd j r).mpr hr

theorem Inv.fails (caller : s.calls i = some call) (phase : call.phase = .broken error) :
    Inv ((s.failAll error).setPhase i (.refused error)) := by
  have hf : Inv (s.failAll error) := h.failAll error fun _ _ => Iff.rfl
  have hcl : ∃ c, (s.failAll error).calls i = some c ∧ c.phase = .broken error := by
    change ∃ c, (if i ∈ (s.responses.terminate error).1 then _ else _) = some c ∧ _
    split
    · exact ⟨call.push (.failure error), by rw [caller]; rfl, phase⟩
    · exact ⟨call, caller, phase⟩
  obtain ⟨c, hc, hph⟩ := hcl
  rw [setPhase_eq hc]
  exact hf.halts hc (by rw [hph]; trivial) (.inr ⟨rfl, nofun⟩)

end

/-! ### Allocations -/

/-- Out of reach of every tag in use, a new call gets a tag of its own. -/
theorem Mux.Clear.unused (clear : s.Clear)
    (alloc : s.protocol.Allocates tag protocol) : ¬ s.InUse tag := by
  intro hu
  exact alloc.ne_of_distant (clear tag hu alloc.free.2) rfl

-- A flushed call is promised less.
private theorem CallInv.flush (h : CallInv protocol responses reader i call) :
    CallInv protocol responses reader i { call with flushed := true } :=
  { h with
    pending := nofun
    clean := nofun
    route := nofun }

private theorem callInv_new
    {op : Op} (oldtag : Option Tag) (alloc : s.protocol.Allocates op.tag protocol) :
    CallInv protocol responses reader i (.new op oldtag) where
  real := alloc.free.1
  unsent _ := rfl
  answered := nofun
  quiet _ := rfl
  waits := nofun
  pending _ _ := by
    change protocol.pending.live[op.tag]? ≠ none
    rw [alloc.live_eq, get_insert, if_pos rfl]
    nofun
  own := nofun
  clean := nofun
  route hjr := absurd rfl hjr
  expired := nofun
  ended := nofun

/-- A new call, with the calls that it flushes marked. -/
theorem Inv.allocates {op : Op} (oldtag : Option Tag) (mark : Call → Call) (h : Inv s)
    (clear : s.Clear) (fresh : s.calls i = none) (alloc : s.protocol.Allocates op.tag s'.protocol)
    (hmk : ∀ c, mark c = c ∨ mark c = { c with flushed := true })
    (hcl : ∀ j, s'.calls j = (Function.update s.calls i (some (.new op oldtag)) j).map mark)
    (hrs : s'.responses = s.responses) (hrd : s'.reader = s.reader)
    (hfl : ∀ tag target : Tag, s'.protocol.flushTargets[tag]? = some target →
      s.protocol.flushTargets[tag]? = some target ∨ oldtag = some target)
    (hmr : ∀ c target, oldtag = some target → c.tag = target → (mark c).flushed = true) :
    Inv s' := by
  have hun := clear.unused alloc
  have htg (c : Call) : (mark c).tag = c.tag := by
    rcases hmk c with hm | hm <;> rw [hm]
  have hol (c : Call) : (mark c).oldtag = c.oldtag := by
    rcases hmk c with hm | hm <;> rw [hm]
  have hph (c : Call) : (mark c).phase = c.phase := by
    rcases hmk c with hm | hm <;> rw [hm]
  have hjr (c : Call) : (mark c).journey = c.journey := by
    rcases hmk c with hm | hm <;> rw [hm]
  have hus (j : Nat) (c : Call) (hu : Uses s'.responses s'.reader j (mark c)) :
      Uses s.responses s.reader j c := by
    unfold Uses at hu ⊢
    rwa [hrs, hrd, htg, hph, hjr] at hu
  have hcs (j : Nat) (c' : Call) (hj : s'.calls j = some c') :
      (j = i ∧ c' = mark (.new op oldtag)) ∨ ∃ c, s.calls j = some c ∧ c' = mark c := by
    rw [hcl] at hj
    obtain ⟨c, hc, rfl⟩ := Option.map_eq_some_iff.mp hj
    by_cases hji : j = i
    · rw [hji, Function.update_self] at hc
      cases hc
      exact .inl ⟨hji, rfl⟩
    · rw [Function.update_of_ne hji] at hc
      exact .inr ⟨c, hc, rfl⟩
  have hk (j : Nat) (c : Call) (hj : s.calls j = some c) : s'.calls j = some (mark c) := by
    have hji : j ≠ i := by
      intro hji
      rw [hji, fresh] at hj
      cases hj
    rw [hcl, Function.update_of_ne hji, hj]
    rfl
  have htt (t : Tag) (ht : s'.Targets t) : s.Targets t ∨ oldtag = some t := by
    rcases ht with ⟨other, ho⟩ | ⟨j, c', hj, htr, hop⟩
    · rcases hfl other t ho with hb | hn
      · exact .inl (.inl ⟨other, hb⟩)
      · exact .inr hn
    · rcases hcs j c' hj with ⟨_, rfl⟩ | ⟨c, hc, rfl⟩
      · rw [hol] at htr
        exact .inr htr
      · rw [hol] at htr
        rw [hph] at hop
        exact .inl (.inr ⟨j, c, hc, htr, hop⟩)
  have hs (j : Nat) (c : Call) (hc : s.calls j = some c)
      (hu : Uses s'.responses s'.reader j (mark c)) : c.tag ≠ op.tag := by
    intro heq
    exact hun (.inl ⟨j, c, hc, heq, hus j c hu⟩)
  constructor
  · intro i₁ i₂ c₁ c₂ h₁ h₂ hu₁ hu₂ heq
    rcases hcs i₁ c₁ h₁ with ⟨rfl, rfl⟩ | ⟨d₁, hd₁, rfl⟩
    · rcases hcs i₂ c₂ h₂ with ⟨rfl, rfl⟩ | ⟨d₂, hd₂, rfl⟩
      · rfl
      · rw [htg, htg] at heq
        exact absurd heq.symm (hs i₂ d₂ hd₂ hu₂)
    · rcases hcs i₂ c₂ h₂ with ⟨rfl, rfl⟩ | ⟨d₂, hd₂, rfl⟩
      · rw [htg, htg] at heq
        exact absurd heq (hs i₁ d₁ hd₁ hu₁)
      · rw [htg, htg] at heq
        exact h.apart hd₁ hd₂ (hus i₁ d₁ hu₁) (hus i₂ d₂ hu₂) heq
  · intro j c' hj hu ht
    rcases hcs j c' hj with ⟨_, rfl⟩ | ⟨c, hc, rfl⟩
    · rw [htg] at ht
      rcases htt _ ht with hb | hn
      · exact absurd (.inr hb) hun
      · exact hmr _ _ hn rfl
    · rw [htg] at ht
      rcases htt _ ht with hb | hn
      · have hf := h.marked hc (hus j c hu) hb
        rcases hmk c with hm | hm
        · rw [hm]
          exact hf
        · rw [hm]
      · exact hmr _ _ hn rfl
  · intro t j hwt
    rw [hrs] at hwt
    obtain ⟨c, hc, hct, hne⟩ := h.waiter t j hwt
    refine ⟨mark c, hk j c hc, (htg c).trans hct, ?_⟩
    rw [hph]
    exact hne
  · intro j r hr
    rw [hrd] at hr
    obtain ⟨c, m, hc, hm, hof, hct⟩ := h.held j r hr
    exact ⟨mark c, m, hk j c hc, (hjr c).trans hm, hof, hct.trans (htg c).symm⟩
  · intro hst
    rw [hrd] at hst
    rw [hrs]
    exact h.stopped hst
  · intro hsm
    rw [hrs] at hsm ⊢
    exact h.closed hsm
  · intro j c' hj
    have hp : ∃ c, c' = mark c ∧ CallInv s'.protocol s'.responses s'.reader j c := by
      rcases hcs j c' hj with ⟨_, rfl⟩ | ⟨c, hc, rfl⟩
      · exact ⟨_, rfl, callInv_new oldtag alloc⟩
      · refine ⟨c, rfl, ?_⟩
        rw [hrs, hrd]
        apply (h.call j c hc).frame
        · exact id
        · intro _ _ hl
          rw [alloc.live_eq, get_insert]
          split
          · exact nofun
          · exact hl
        · exact id
        · exact id
        · intro _ _ _ hr
          exact hr
    obtain ⟨c, rfl, hc⟩ := hp
    rcases hmk c with hm | hm
    · rw [hm]
      exact hc
    · rw [hm]
      exact hc.flush

/-! ### Every step -/

-- The calls stay as they are, and the reader goes on, stops or finds the transport gone.
private theorem Inv.shared (h : Inv s) (hpn : protocol.pending = s.protocol.pending)
    (htt : protocol.flushTargets = s.protocol.flushTargets)
    (hrd : ∀ j r, reader = .holding j r ↔ s.reader = .holding j r)
    (hst : reader = .stopped → s.reader = .stopped)
    (hup : (∀ error, reader ≠ .failing error) → ∀ error, s.reader ≠ .failing error) :
    Inv { s with protocol := protocol, reader := reader } := by
  apply h.of_follows
  · constructor
    · intro j c hc
      refine ⟨c, hc, ⟨rfl, rfl, rfl⟩, id, ?_⟩
      rintro (hp | hw | hf | ⟨r, hr⟩)
      · exact .inl hp
      · exact .inr (.inl hw)
      · exact .inr (.inr (.inl hf))
      · exact .inr (.inr (.inr ⟨r, (hrd j r).mp hr⟩))
    · intro tag oldtag hol
      rw [← htt]
      exact hol
  · exact h.waiter
  · intro j r hr
    exact h.held j r ((hrd j r).mp hr)
  · intro hn
    exact h.stopped (hst hn)
  · exact h.closed
  · intro j c hc
    apply (h.call j c hc).frame
    · exact id
    · intro _ _ hl
      rw [hpn]
      exact hl
    · exact id
    · intro hn
      exact ⟨hn.1, hup hn.2⟩
    · intro _ _ r hr
      exact (hrd j r).mpr hr

theorem Inv.step {action : Action} (h : Inv s) (step : Step s action s')
    (clear : action = .allocate → s.Clear) : Inv s' := by
  cases step with
  | submits i r fresh built =>
    have hb := (wp_build r).of_exec built
    apply h.allocates none id (clear rfl) fresh hb.1
    · intro _
      exact .inl rfl
    · intro j
      rw [Option.map_id]
      rfl
    · rfl
    · rfl
    · intro tag target htr
      left
      rw [← hb.2]
      exact htr
    · intro _ _ htr
      cases htr
  | unbuilt r built =>
    have hb := (wp_build r).of_exec built
    exact h.shared hb.1 hb.2 (fun _ _ => Iff.rfl) id id
  | @flushes protocol op i oldtag fresh built =>
    have hb := (wp_flush oldtag).of_exec built
    apply h.allocates (some oldtag)
      (fun call => if call.tag = oldtag then { call with flushed := true } else call)
      (clear rfl) fresh hb.2.2.1
    · intro c
      split
      · exact .inr rfl
      · exact .inl rfl
    · intro j
      rfl
    · rfl
    · rfl
    · intro tag target htr
      change protocol.flushTargets[tag]? = some target at htr
      rw [hb.2.2.2, get_insert] at htr
      split at htr
      · exact .inr htr
      · exact .inl htr
    · intro c target htr htg
      cases htr
      rw [if_pos htg]
  | unflushed oldtag built =>
    have hb := (wp_flush oldtag).of_exec built
    exact h.shared hb.1 hb.2 (fun _ _ => Iff.rfl) id id
  | turns caller turn => exact h.turns caller turn
  | givesUp caller gives => exact h.givesUp caller gives
  | registers caller phase registered => exact h.registers caller phase registered
  | unregistered caller phase registered => exact h.unregistered caller phase registered
  | cancels caller cancels => exact h.cancels caller cancels
  | fails caller phase => exact h.fails caller phase
  | shutsDown => exact h.failAll _ fun _ _ => Iff.rfl
  | receives reader caller journey received =>
    have hr := (wp_receive _).of_exec received
    apply h.takesIn reader caller journey hr
    rw [hr.answers _ rfl]
    exact .inl rfl
  | skips reader caller journey received late =>
    have hr := (wp_receive _).of_exec received
    rw [protocolError_eq_late.mp late] at hr
    apply h.takesIn reader caller journey hr
    exact .inr (.inr ⟨reader, h.late caller journey hr⟩)
  | rejects reader caller journey received _ =>
    have hr := (wp_receive _).of_exec received
    exact h.takesIn reader caller journey hr (.inr (.inl ⟨_, rfl⟩))
  | loses reader error =>
    apply h.shared rfl rfl
    · intro j r
      rw [reader]
      exact ⟨nofun, nofun⟩
    · nofun
    · intro hup
      exact absurd rfl (hup error)
  | stops reader =>
    apply h.failAll
    intro j r
    rw [reader]
    exact ⟨nofun, nofun⟩
  | handsOver reader => exact h.handsOver reader

end R9P.Multiplex
