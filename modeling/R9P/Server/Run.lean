import R9P.Base.Runs
import R9P.Server.Preservation

/-!
# Runs of a server

Library `Server`. A run is any interleaving of `admit` and `complete`, where a completed
request was dispatched earlier: completions come in any order, late, more than once and
with any result. `World` counts the generations used. As long as a 64-bit counter can tell
them apart, every live request keeps the claims it laid at admission (`Tracked`).
-/

namespace R9P.Server
open Base Wire

/-- A call to the server, with what it returned. -/
inductive Call where
  | admitted (message : TMessage) (event : ServerEvent)
  | completed (request : ServerRequest) (result : Result ServerCompletion)
      (reply : Option RMessage)
  deriving DecidableEq

/-- The request that an event hands to the backend. -/
def ServerEvent.dispatched : ServerEvent → Option ServerRequest
  | dispatch request => some request
  | _ => none

/-- A session with the requests dispatched and the number of generations used so far. -/
structure World where
  session : Session
  issued : List ServerRequest
  generations : Nat

namespace World

def new (config : ServerConfig) : World := ⟨.new config, [], 0⟩

def onAdmit (w : World) (m : TMessage) : World where
  session := (admitMessage w.session m).2
  issued := (admitMessage w.session m).1.dispatched.toList ++ w.issued
  generations := w.generations + (w.session.usesGeneration m).toNat

def onComplete (w : World) (r : ServerRequest) (result : Result ServerCompletion) : World :=
  { w with session := (Server.complete w.session r result).2 }

/-- The calls a server allows. -/
inductive Step (w : World) : Call → World → Prop
  | admits (m : TMessage) : Step w (.admitted m (admitMessage w.session m).1) (w.onAdmit m)
  | completes (r : ServerRequest) (result : Result ServerCompletion) (issued : r ∈ w.issued) :
      Step w (.completed r result (Server.complete w.session r result).1) (w.onComplete r result)

end World

/-- The server as a transition system. -/
def server (config : ServerConfig) : System World Call where
  initial w := w = .new config
  step := World.Step

namespace World

variable {config : ServerConfig} {history : List Call} {w w' : World} {call : Call}
  {r : ServerRequest}

/-- The configuration stays, and the session is well formed. -/
structure Sound (config : ServerConfig) (w : World) : Prop where
  config_eq : w.session.config = config
  wf : w.session.WF

theorem Sound.step (h : w.Sound config) (hst : w.Step call w') : w'.Sound config := by
  cases hst with
  | admits m =>
    have ha := h.wf.admission m
    exact ⟨ha.config_eq.trans h.config_eq, ha.wf h.wf⟩
  | completes r result issued =>
    have hc := w.session.completion r result
    exact ⟨hc.config_eq.trans h.config_eq, hc.wf h.wf⟩

/-- Every session a server reaches is well formed. -/
theorem sound (run : (server config).Run history w) : w.Sound config := by
  apply run.invariant (I := fun _ w => w.Sound config)
  · intro w hw
    rw [hw]
    exact ⟨rfl, Session.wf_new config⟩
  · intro _ _ _ _ _ h hst
    exact h.step hst

/-- The counter tells the requests apart, each live request has the claims it laid, and the
fids bound or promised are within the limit. -/
structure Tracked (w : World) : Prop where
  counted : w.session.requests.nextGeneration.toNat = w.generations
  older : ∀ r ∈ w.issued, r.key.generation.toNat < w.generations
  backed : ∀ r ∈ w.issued, w.session.IsLive r.key →
    ∀ f c, (f, c) ∈ r.kind.claims → w.session.Holds r.key f c
  room : w.session.fidCount ≤ w.session.config.maxFids

theorem toNat_saturatingSucc {n : UInt64} (h : n.toNat + 1 < 2 ^ 64) :
    (saturatingSucc n).toNat = n.toNat + 1 := by
  have hne : n ≠ 0xffffffffffffffff := by
    intro heq
    rw [heq] at h
    exact absurd h (by decide)
  rw [saturatingSucc, if_neg hne, UInt64.toNat_add]
  exact Nat.mod_eq_of_lt h

/-- A dispatched request has the next key, and the message used a generation for it. -/
theorem dispatched_key {s s' : Session} {m : TMessage}
    (h : s.Admission m (.dispatch r) s') :
    r.key = s.nextKey m.tag ∧ s.usesGeneration m = true := by
  cases h with
  | dispatched begins permits acquires => exact ⟨rfl, begins.uses⟩

/-- A request issued after an admission is the one it dispatched, or was issued before. -/
theorem mem_issued_onAdmit {m : TMessage} (h : r ∈ (w.onAdmit m).issued) :
    (admitMessage w.session m).1 = .dispatch r ∨ r ∈ w.issued := by
  rcases List.mem_append.mp h with h | h
  · left
    cases he : (admitMessage w.session m).1 with
    | dispatch request =>
      rw [he] at h
      rw [List.mem_singleton.mp h]
    | reply message | flush reply outcome => rw [he] at h; cases h
  · exact .inr h

theorem Tracked.onAdmit (h : w.Tracked) (hs : w.session.WF) (m : TMessage)
    (hg : (w.onAdmit m).generations < 2 ^ 64) : (w.onAdmit m).Tracked := by
  have ha := hs.admission m
  constructor
  · change (admitMessage w.session m).2.requests.nextGeneration.toNat =
      w.generations + (w.session.usesGeneration m).toNat
    change w.generations + (w.session.usesGeneration m).toNat < 2 ^ 64 at hg
    rw [ha.nextGeneration_eq]
    cases hu : w.session.usesGeneration m with
    | false => exact h.counted
    | true =>
      rw [hu] at hg
      rw [if_pos rfl, toNat_saturatingSucc, h.counted]
      · rfl
      · rw [h.counted]
        exact hg
  · intro r hr
    change r.key.generation.toNat < w.generations + (w.session.usesGeneration m).toNat
    rcases mem_issued_onAdmit hr with hn | hr
    · rw [hn] at ha
      obtain ⟨hk, hu⟩ := dispatched_key ha
      rw [hk, hu, Session.nextKey, h.counted]
      exact Nat.lt_succ_self _
    · have hlt := h.older r hr
      omega
  · intro r hr hl f c hcl
    rcases mem_issued_onAdmit hr with hn | hr
    · -- A new request has just laid its claims.
      rw [hn] at ha
      change (admitMessage w.session m).2.Holds r.key f c
      generalize (admitMessage w.session m).2 = s' at ha
      cases ha with
      | dispatched begins permits acquires => exact acquires.holds hcl
    · -- An older one is not the new one, whose generation is the next.
      have hb : w.session.IsLive r.key := by
        apply ha.live_before hs hl
        intro r' hn hsm
        rw [hn] at ha
        have hlt := h.older r hr
        rw [hsm, (dispatched_key ha).1, Session.nextKey, h.counted] at hlt
        exact Nat.lt_irrefl _ hlt
      exact ha.keeps hs hl (h.backed r hr hb f c hcl)
  · exact ha.room hs h.room

theorem Tracked.onComplete (h : w.Tracked) (hs : w.session.WF)
    (hr : r ∈ w.issued) (result : Result ServerCompletion) : (w.onComplete r result).Tracked := by
  have hc := w.session.completion r result
  constructor
  · change (Server.complete w.session r result).2.requests.nextGeneration.toNat = w.generations
    rw [hc.nextGeneration_eq]
    exact h.counted
  · exact h.older
  · intro r' hr' hl f c hcl
    exact hc.keeps hl (h.backed r' hr' (hc.live_before hl) f c hcl)
  · exact hc.room hs (h.backed r hr) h.room

theorem generations_mono (hst : w.Step call w') : w.generations ≤ w'.generations := by
  cases hst with
  | admits m => exact Nat.le_add_right _ _
  | completes r result issued => exact Nat.le_refl _

theorem tracked_new (config : ServerConfig) : (new config).Tracked := by
  refine ⟨rfl, ?_, ?_, Nat.zero_le _⟩
  all_goals
    intro r hr
    cases hr

/-- While the generations last, every run tracks its requests. -/
theorem tracked (run : (server config).Run history w) (hg : w.generations < 2 ^ 64) :
    w.Tracked := by
  revert hg
  apply run.invariant (I := fun _ w => w.generations < 2 ^ 64 → w.Tracked)
  · intro w hw _
    rw [hw]
    exact tracked_new config
  · intro history w call w' hr ih hst hg
    have hb := ih (Nat.lt_of_le_of_lt (generations_mono hst) hg)
    have hs := (sound hr).wf
    cases hst with
    | admits m => exact hb.onAdmit hs m hg
    | completes r result issued => exact hb.onComplete hs issued result

/-! ### The end of the generations -/

/-- A fresh session whose counter stands at a generation. -/
def atGeneration (config : ServerConfig) (generation : UInt64) : Session :=
  (Session.new config).withRequests ⟨generation, ∅⟩

/-- The world after `n + 1` equal version requests. -/
def versioned (config : ServerConfig) (msize : UInt32) (version : Bytes) (n : Nat) : World :=
  ⟨((atGeneration config (UInt64.ofNat (min n (2 ^ 64 - 1)))).resetForVersion msize version).2,
    [], n + 1⟩

theorem saturatingSucc_ofNat_min (n : Nat) : saturatingSucc (UInt64.ofNat (min n (2 ^ 64 - 1))) =
      UInt64.ofNat (min (n + 1) (2 ^ 64 - 1)) := by
  by_cases hn : n < 2 ^ 64 - 1
  · have hm : min n (2 ^ 64 - 1) = n := by omega
    have hm' : min (n + 1) (2 ^ 64 - 1) = n + 1 := by omega
    have ho : (UInt64.ofNat n).toNat = n := by
      rw [UInt64.toNat_ofNat']
      omega
    apply UInt64.toNat_inj.mp
    rw [hm, hm', toNat_saturatingSucc, ho, UInt64.toNat_ofNat']
    · omega
    · omega
  · have hm : min n (2 ^ 64 - 1) = 2 ^ 64 - 1 := by omega
    have hm' : min (n + 1) (2 ^ 64 - 1) = 2 ^ 64 - 1 := by omega
    rw [hm, hm']
    rfl

/-- A reset looks only at the configuration and at the counter. -/
theorem resetForVersion_congr {s s' : Session} (msize : UInt32) (version : Bytes)
    (hc : s'.config = s.config) (hn : s'.requests.nextGeneration = s.requests.nextGeneration) :
    s'.resetForVersion msize version = s.resetForVersion msize version := by
  have hi : s'.invalidate = s.invalidate := by
    rw [Session.invalidate, Session.invalidate, hc, RequestTable.reset, RequestTable.reset, hn]
  rw [Session.resetForVersion, Session.resetForVersion, hi]

/-- A version request is never dispatched and always uses a generation. -/
theorem onAdmit_version (w : World) (tag : Tag) (msize : UInt32) (version : Bytes) :
    w.onAdmit (.version tag msize version) =
      ⟨(w.session.resetForVersion msize version).2, w.issued, w.generations + 1⟩ := by
  have hr : (admitMessage w.session (.version tag msize version)).1.dispatched = none ∧
      (admitMessage w.session (.version tag msize version)).2 =
        (w.session.resetForVersion msize version).2 := by
    change (versionReply tag (w.session.resetForVersion msize version)).1.dispatched = none ∧
      (versionReply tag (w.session.resetForVersion msize version)).2 = _
    generalize w.session.resetForVersion msize version = reset
    obtain ⟨negotiation, s'⟩ := reset
    cases negotiation with
    | ok outcome | error e => exact ⟨rfl, rfl⟩
  rw [onAdmit, hr.1, hr.2]
  rfl

/-- Version requests alone use up any number of generations. -/
theorem run_versioned (config : ServerConfig) (tag : Tag) (msize : UInt32) (version : Bytes)
    (n : Nat) : ∃ history, (server config).Run history (versioned config msize version n) := by
  induction n with
  | zero =>
    have hst := Step.admits (w := new config) (.version tag msize version)
    rw [onAdmit_version] at hst
    exact ⟨_, .next (.start rfl) hst⟩
  | succ n ih =>
    obtain ⟨history, hr⟩ := ih
    have hst := Step.admits (w := versioned config msize version n) (.version tag msize version)
    rw [onAdmit_version] at hst
    have hs : ((versioned config msize version n).session.resetForVersion msize version).2 =
        (versioned config msize version (n + 1)).session := by
      obtain ⟨_, _, _, _, heq⟩ := Session.reset_frame
        (rfl : _ = (versioned config msize version n).session)
      change _ = ((atGeneration config _).resetForVersion msize version).2
      rw [resetForVersion_congr msize version]
      · rw [heq]
        rfl
      · rw [heq, ← saturatingSucc_ofNat_min]
        rfl
    rw [hs] at hst
    exact ⟨_, .next hr hst⟩

end World

end R9P.Server
