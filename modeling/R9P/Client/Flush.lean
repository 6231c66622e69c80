import R9P.Base.Runs
import R9P.Client.Tags

/-!
# Flushed tags of the client

Library `Client`. The runs of a protocol client as a transition system, and what becomes of
the target of a flush until its reply. The reply to the flushed request frees the target
early; a scan that comes round before the reply to the flush hands it out again.
-/

namespace R9P.Client
open Base Wire Server

/-- What a call of the client came to. A flush is recorded with the request it was aimed at. -/
inductive Event where
  | reset
  | requested (tag : Tag)
  | flushed (tag oldtag : Tag) (aimed : Option RequestKey)
  | refused
  | abandoned (tag : Tag)
  | received (m : RMessage) (result : Result ClientResponse)
  deriving DecidableEq

/-- The tag an event hands out. -/
def Event.allocates : Event → Option Tag
  | requested tag | flushed tag _ _ => some tag
  | _ => none

/-- The events after which a flush with this tag waits no longer: its reply, a new session,
its withdrawal, or a new flush with its tag. -/
def Event.Settles (tag : Tag) : Event → Prop
  | reset => True
  | requested _ | refused => False
  | flushed other _ _ | abandoned other => other = tag
  | received m result => m.tag = tag ∨ Negotiated result

/-- The calls of a client. -/
inductive Step : Client → Event → Client → Prop
  | reset (c : Client) (msize : UInt32) (variant : Variant) :
      Step c .reset (c.versionRequestFor msize variant).2
  | requested {c c' : Client} {op : Op} (r : Request) (built : r.build.exec c = (.ok op, c')) :
      Step c (.requested op.tag) c'
  | refused {c c' : Client} {e : Error} (r : Request) (failed : r.build.exec c = (.error e, c')) :
      Step c .refused c'
  | flushed {c c' : Client} {op : Op} (oldtag : Tag)
      (built : (flush oldtag).exec c = (.ok op, c')) :
      Step c (.flushed op.tag oldtag c.pending.live[oldtag]?) c'
  | unflushed {c c' : Client} {e : Error} (oldtag : Tag)
      (failed : (flush oldtag).exec c = (.error e, c')) : Step c .refused c'
  | abandoned (c : Client) (tag : Tag) : Step c (.abandoned tag) (c.abandon tag)
  | received (c : Client) (m : RMessage) :
      Step c (.received m ((receive m).exec c).1) ((receive m).exec c).2

/-- A client from its creation on. -/
def client : System Client Event := ⟨fun c => c = .new, Step⟩

/-- No flush target that lost its request is within reach of the next allocation. -/
def Spared (c : Client) : Prop :=
  ∀ tag oldtag : Tag, c.flushTargets[tag]? = some oldtag → c.pending.live[oldtag]? = none →
    c.Distant oldtag

/-- A client that is spared whenever it hands out a tag. -/
def sparing : System Client Event := client.restrict fun c event =>
  event.allocates.isSome → c.Spared

variable {c c' : Client} {event : Event} {history : List Event}

/-! ### One step -/

/-- What an event does to the two tables. -/
inductive Effect (c : Client) : Event → Client → Prop
  | requested {tag : Tag} {c' : Client} (alloc : c.Allocates tag c')
      (targets : c'.flushTargets = c.flushTargets) : Effect c (.requested tag) c'
  | flushed {tag oldtag : Tag} {c' : Client} (alloc : c.Allocates tag c')
      (targets : c'.flushTargets = c.flushTargets.insert tag oldtag) :
      Effect c (.flushed tag oldtag c.pending.live[oldtag]?) c'
  | retired {event : Event} {c' : Client} (quiet : event.allocates = none)
      (retires : c.Retires c')
      (kept : ∀ tag oldtag : Tag, c.flushTargets[tag]? = some oldtag → ¬ event.Settles tag →
        c'.flushTargets[tag]? = some oldtag) : Effect c event c'

-- A call that fails leaves both tables as they are.
private theorem Effect.unchanged (hp : c'.pending = c.pending)
    (ht : c'.flushTargets = c.flushTargets) : c.Effect .refused c' := by
  apply Effect.retired rfl
  · constructor
    · intro tag key h
      rwa [hp] at h
    · intro tag oldtag h
      rwa [ht] at h
  · intro tag oldtag h _
    rwa [ht]

theorem Step.effect (step : Step c event c') : c.Effect event c' := by
  cases step with
  | reset msize variant =>
    apply Effect.retired rfl (c.versionRequestFor_retires msize variant)
    intro tag oldtag _ hs
    exact absurd trivial hs
  | requested r built =>
    have h := (wp_build r).of_exec built
    exact .requested h.1 h.2
  | refused r failed =>
    have h := (wp_build r).of_exec failed
    exact .unchanged h.1 h.2
  | flushed oldtag built =>
    have h := (wp_flush oldtag).of_exec built
    exact .flushed h.2.2.1 h.2.2.2
  | unflushed oldtag failed =>
    have h := (wp_flush oldtag).of_exec failed
    exact .unchanged h.1 h.2
  | abandoned tag =>
    apply Effect.retired rfl (c.abandon_retires tag)
    intro other oldtag h hs
    rw [abandon_targets]
    split
    · exact h
    · have hne : tag ≠ other := hs
      rw [get_erase, if_neg hne]
      exact h
  | received m =>
    have h : c.Received m _ _ := wp_receive m
    apply Effect.retired rfl h.retires
    intro tag oldtag ht hs
    apply h.kept _ tag oldtag ht
    · intro htg
      exact hs (.inl htg.symm)
    · intro hn
      exact hs (.inr hn)

-- Neither a live target nor a distant one is handed out.
private theorem Spared.allocates_ne {tag other oldtag : Tag} (spared : c.Spared)
    (alloc : c.Allocates tag c') (ht : c.flushTargets[other]? = some oldtag) :
    tag ≠ oldtag := by
  cases hl : c.pending.live[oldtag]? with
  | none => exact alloc.ne_of_distant (spared other oldtag ht hl)
  | some key =>
    intro heq
    rw [← heq, alloc.free.2] at hl
    cases hl

/-! ### Whole runs -/

/-- A flush in the history, and the events since. -/
def FlushedBefore (history since : List Event) (tag oldtag : Tag) (aimed : Option RequestKey) :
    Prop :=
  ∃ older, history = since ++ .flushed tag oldtag aimed :: older

/-- A flush that waits for its reply is remembered, and nothing got its target. -/
def Remembered (history : List Event) (c : Client) : Prop :=
  ∀ (since : List Event) (tag oldtag : Tag) (aimed : Option RequestKey),
    FlushedBefore history since tag oldtag aimed → (∀ e ∈ since, ¬ e.Settles tag) →
    c.flushTargets[tag]? = some oldtag ∧ ∀ e ∈ since, e.allocates ≠ some oldtag

/-- What is remembered is the latest flush with the tag, and whatever holds its target is
what it was aimed at. -/
def Aimed (history : List Event) (c : Client) : Prop :=
  ∀ tag oldtag : Tag, c.flushTargets[tag]? = some oldtag → ∃ since aimed,
    FlushedBefore history since tag oldtag aimed ∧
    (∀ e ∈ since, e.allocates ≠ some oldtag ∧ ∀ other key, e ≠ .flushed tag other key) ∧
    (tag ≠ oldtag → ∀ key : RequestKey, c.pending.live[oldtag]? = some key → aimed = some key)

private theorem Remembered.step (h : Remembered history c) (effect : c.Effect event c')
    (spared : event.allocates.isSome → c.Spared) : Remembered (event :: history) c' := by
  intro since tag oldtag aimed hf hw
  obtain ⟨older, hsp⟩ := hf
  cases since with
  | nil =>
    -- The flush itself.
    cases hsp
    cases effect with
    | flushed alloc targets =>
      rw [targets, get_insert, if_pos rfl]
      exact ⟨rfl, fun e he => absurd he List.not_mem_nil⟩
    | retired quiet _ _ => cases quiet
  | cons last since =>
    injection hsp with hl hr
    rw [← hl] at hw ⊢
    have hs := hw event List.mem_cons_self
    obtain ⟨ht, ho⟩ := h since tag oldtag aimed ⟨older, hr⟩
      fun e he => hw e (List.mem_cons_of_mem _ he)
    rw [List.forall_mem_cons]
    cases effect with
    | requested alloc targets =>
      rw [targets]
      refine ⟨ht, fun heq => ?_, ho⟩
      exact (spared rfl).allocates_ne alloc ht (Option.some.inj heq)
    | flushed alloc targets =>
      have hne : ¬ _ = tag := hs
      rw [targets, get_insert, if_neg hne]
      refine ⟨ht, fun heq => ?_, ho⟩
      exact (spared rfl).allocates_ne alloc ht (Option.some.inj heq)
    | retired quiet _ kept =>
      rw [quiet]
      exact ⟨kept tag oldtag ht hs, nofun, ho⟩

theorem targets_remembered (run : sparing.Run history c) : Remembered history c := by
  apply run.invariant (I := Remembered)
  · intro c _ since tag oldtag aimed hf _
    obtain ⟨older, hsp⟩ := hf
    simp at hsp
  · intro history c event c' _ ih step
    exact ih.step (Step.effect step.2) step.1

-- An entry from before the event, which neither replaces it nor gives its target away.
private theorem Aimed.older (h : Aimed history c) {tag oldtag : Tag}
    (ht : c.flushTargets[tag]? = some oldtag) (hal : event.allocates ≠ some oldtag)
    (hfl : ∀ other key, event ≠ .flushed tag other key)
    (hl : ∀ key : RequestKey, c'.pending.live[oldtag]? = some key →
      c.pending.live[oldtag]? = some key) :
    ∃ since aimed, FlushedBefore (event :: history) since tag oldtag aimed ∧
      (∀ e ∈ since, e.allocates ≠ some oldtag ∧ ∀ other key, e ≠ .flushed tag other key) ∧
      (tag ≠ oldtag → ∀ key : RequestKey, c'.pending.live[oldtag]? = some key →
        aimed = some key) := by
  obtain ⟨since, aimed, ⟨older, hsp⟩, hs, ha⟩ := h tag oldtag ht
  refine ⟨event :: since, aimed, ⟨older, ?_⟩, ?_, ?_⟩
  · rw [hsp]
    rfl
  · rw [List.forall_mem_cons]
    exact ⟨⟨hal, hfl⟩, hs⟩
  · intro hne key hk
    exact ha hne key (hl key hk)

private theorem Aimed.step (h : Aimed history c) (effect : c.Effect event c')
    (spared : event.allocates.isSome → c.Spared) : Aimed (event :: history) c' := by
  intro tag oldtag ht
  cases effect with
  | requested alloc targets =>
    rw [targets] at ht
    have hne := (spared rfl).allocates_ne alloc ht
    apply h.older ht
    · intro heq
      exact hne (Option.some.inj heq)
    · intro other key heq
      cases heq
    · intro key hk
      rwa [alloc.live_eq, get_insert, if_neg hne] at hk
  | @flushed other target c' alloc targets =>
    rw [targets, get_insert] at ht
    by_cases htg : other = tag
    · -- The flush itself.
      rw [if_pos htg] at ht
      cases ht
      rw [← htg]
      refine ⟨[], _, ⟨history, rfl⟩, fun e he => absurd he List.not_mem_nil, ?_⟩
      intro hne key hk
      rwa [alloc.live_eq, get_insert, if_neg hne] at hk
    · rw [if_neg htg] at ht
      have hne := (spared rfl).allocates_ne alloc ht
      apply h.older ht
      · intro heq
        exact hne (Option.some.inj heq)
      · intro _ _ heq
        injection heq with heq
        exact htg heq
      · intro key hk
        rwa [alloc.live_eq, get_insert, if_neg hne] at hk
  | retired quiet retires kept =>
    apply h.older (retires.targets tag oldtag ht)
    · rw [quiet]
      exact nofun
    · intro other key heq
      rw [heq] at quiet
      cases quiet
    · intro key
      exact retires.live oldtag key

theorem targets_aimed (run : sparing.Run history c) : Aimed history c := by
  apply run.invariant (I := Aimed)
  · intro c hn tag oldtag ht
    rw [hn] at ht
    cases ht
  · intro history c event c' _ ih step
    exact ih.step (Step.effect step.2) step.1

/-- A client that never comes within reach of a flush target does not hand it out before the
reply to the flush, and an `Rflush` retires no request but the one its flush was aimed at. -/
theorem flush_target_kept (run : sparing.Run history c) :
    (∀ since older tag oldtag aimed, history = since ++ .flushed tag oldtag aimed :: older →
      (∀ e ∈ since, ¬ e.Settles tag) → ∀ e ∈ since, e.allocates ≠ some oldtag) ∧
    (∀ (tag retired : Tag) (key : RequestKey), c.pending.live[retired]? = some key →
      ((receive (.flush tag)).exec c).2.pending.live[retired]? = none → retired ≠ tag →
      ∃ since older, history = since ++ .flushed tag retired (some key) :: older ∧
        ∀ e ∈ since, e.allocates ≠ some retired ∧
          ∀ oldtag aimed, e ≠ .flushed tag oldtag aimed) := by
  constructor
  · intro since older tag oldtag aimed hsp hw
    exact (targets_remembered run since tag oldtag aimed ⟨older, hsp⟩ hw).2
  · intro tag retired key hk hnn hne
    have hr : c.Received (.flush tag) _ _ := wp_receive (.flush tag)
    have ho : ¬ Negotiated ((receive (.flush tag)).exec c).1 := by
      intro hn
      have hno : tag = NOTAG := hr.notag hn
      rw [hno] at hn
      exact hn
    rcases hr.only ho retired key hk hnn with htg | ht
    · exact absurd htg hne
    · obtain ⟨since, aimed, ⟨older, hsp⟩, hs, ha⟩  := targets_aimed run tag retired ht
      rw [ha (Ne.symm hne) key hk] at hsp
      exact ⟨since, older, hsp, hs⟩

/-- A client that attaches. -/
def attachSent : Client := (attach [] []).exec new |>.2

/-- The attach under a flush. -/
def flushing : Client := (flush 0).exec attachSent |>.2

private theorem step_attachSent : Step new (.requested 0) attachSent := by
  have hop : ((Client.attach [] []).exec new).1 =
      .ok ⟨0, some 1, .attach 0 1 NOFID [] []⟩ := by decide +kernel
  exact .requested (.attach [] []) (Prod.ext hop rfl)

private theorem step_flushing : Step attachSent (.flushed 1 0 (some ⟨0, 0⟩)) flushing := by
  have hop : ((flush 0).exec attachSent).1 = .ok ⟨1, none, .flush 1 0⟩ := by decide +kernel
  exact .flushed 0 (Prod.ext hop rfl)

/-- The attach is refused while the flush is under way, and its tag is free. -/
def attachRefused : Client := (receive (.error 0 [])).exec flushing |>.2

/-- Another request then. -/
def clunkSent : Client := (clunk 1).exec attachRefused |>.2

private theorem step_attachRefused :
    Step flushing (.received (.error 0 []) (.ok (.error 0 []))) attachRefused := by
  have hr : ((receive (.error 0 [])).exec flushing).1 = .ok (.error 0 []) := by decide +kernel
  have hs := Step.received flushing (.error 0 [])
  rwa [hr] at hs

private theorem step_clunkSent : Step attachRefused (.requested 2) clunkSent := by
  have hop : ((clunk 1).exec attachRefused).1 = .ok ⟨2, some 1, .clunk 2 1⟩ := by decide +kernel
  exact .requested (.clunk 1) (Prod.ext hop rfl)

-- The target of the flush lies behind the scan, almost a whole round away.
private theorem spared_attachRefused : attachRefused.Spared := by
  intro tag oldtag ht _
  have hz : attachRefused.flushTargets.toList = [(1, 0)] := by decide +kernel
  have hm := Std.ExtTreeMap.mem_toList_iff_getElem?_eq_some.mpr ht
  rw [hz] at hm
  cases List.mem_singleton.mp hm
  show attachRefused.pending.live.size + 1 < attachRefused.ahead 0
  decide +kernel

/-- The reply to a flush retires the attach that it was aimed at; and where the attach is answered
before, its tag is not handed out to the request that follows. -/
theorem flush_target_kept_clunkSent :
    (∃ since older : List Event,
      [.flushed 1 0 (some ⟨0, 0⟩), .requested 0] = since ++ .flushed 1 0 (some ⟨0, 0⟩) :: older ∧
      ∀ e ∈ since, e.allocates ≠ some 0 ∧ ∀ oldtag aimed, e ≠ .flushed 1 oldtag aimed) ∧
    ∀ e ∈ [Event.requested 2, .received (.error 0 []) (.ok (.error 0 []))],
      e.allocates ≠ some 0 := by
  have hs (c : Client) (h : c.flushTargets = ∅) : c.Spared := by
    intro tag oldtag ht
    rw [h] at ht
    cases ht
  have hr : sparing.Run [.flushed 1 0 (some ⟨0, 0⟩), .requested 0] flushing :=
    .next (.next (.start rfl) ⟨fun _ => hs _ rfl, step_attachSent⟩)
      ⟨fun _ => hs _ rfl, step_flushing⟩
  refine ⟨(flush_target_kept hr).2 1 0 ⟨0, 0⟩ (by decide +kernel) (by decide +kernel) (by decide),
    ?_⟩
  have hrn := System.Run.next (System.Run.next hr ⟨fun h => (by cases h), step_attachRefused⟩)
    ⟨fun _ => spared_attachRefused, step_clunkSent⟩
  refine (flush_target_kept hrn).1 [.requested 2, _] [.requested 0] 1 0 (some ⟨0, 0⟩) rfl ?_
  intro e he
  rcases List.mem_cons.mp he with rfl | he
  · exact id
  · cases List.mem_singleton.mp he
    rintro (h | h)
    · cases h
    · exact h

/-! ### A scan that comes round -/

-- The reply to a flush takes down whatever holds the target.
private theorem receive_flush {tag oldtag : Tag} {key : RequestKey} (htg : tag ≠ NOTAG)
    (ho : oldtag ≠ NOTAG) (hl : c.pending.live[tag]? = some key)
    (ht : c.flushTargets[tag]? = some oldtag) :
    ((receive (.flush tag)).exec c).2.pending.live[oldtag]? = none := by
  unfold receive
  dsimp only
  rw [Checked.exec_bind, finish_exec htg hl]
  dsimp only
  rw [Checked.exec_bind, Checked.update, Checked.exec_ofExec,
    show (c.retire tag).flushTargets[tag]? = _ from ht]
  change (dropPending oldtag _).pending.live[oldtag]? = none
  rw [dropPending_live, if_neg ho, get_erase, if_pos rfl]

private theorem saturatingSucc_ne_zero (n : UInt64) : saturatingSucc n ≠ 0 := by
  unfold saturatingSucc
  split
  · next h =>
    rw [h]
    decide
  · next h =>
    intro hz
    apply h
    rw [← UInt64.add_sub_cancel n 1, hz]
    rfl

/-- The client once a request was sent and answered. -/
def turned (c : Client) : Client :=
  { c with
    nextTag := c.nextTag + 1
    pending := { c.pending with nextGeneration := saturatingSucc c.pending.nextGeneration } }

/-- A request answered at once moves the scan on by one tag and leaves no trace. -/
theorem run_turned (run : client.Run history c) (hf : c.Free c.nextTag) :
    client.Run (.received (.clunk c.nextTag) (.ok (.completion c.nextTag .clunk)) ::
      .requested c.nextTag :: history) c.turned := by
  have hb := clunk_exec 0 (allocTag_next hf)
  have hl : (c.claim c.nextTag).pending.live[c.nextTag]? =
      some ⟨c.nextTag, c.pending.nextGeneration⟩ := by
    unfold claim
    rw [get_insert, if_pos rfl]
  have hr := receive_clunk hf.1 hl
  have ht : (c.claim c.nextTag).retire c.nextTag = c.turned := by
    unfold claim retire turned
    dsimp only
    rw [erase_insert_self hf.2]
  have hs := Step.received (c.claim c.nextTag) (.clunk c.nextTag)
  rw [hr, ht] at hs
  exact .next (.next run (.requested _ hb)) hs

/-- As many rounds as there are free tags in a row; no waiting flush is settled by them. -/
theorem run_rounds (n : Nat) (run : client.Run history c)
    (hf : ∀ i < n, c.Free (c.nextTag + UInt16.ofNat i)) :
    ∃ newer c', client.Run (newer ++ history) c' ∧ c'.nextTag = c.nextTag + UInt16.ofNat n ∧
      c'.pending.live = c.pending.live ∧ c'.flushTargets = c.flushTargets ∧
      (c.pending.nextGeneration ≠ 0 → c'.pending.nextGeneration ≠ 0) ∧
      ∀ tag, ¬ c.Free tag → ∀ e ∈ newer, ¬ e.Settles tag := by
  induction n with
  | zero =>
    refine ⟨[], c, run, ?_, rfl, rfl, id, fun _ _ e he => absurd he List.not_mem_nil⟩
    exact (UInt16.add_zero _).symm
  | succ n ih =>
    obtain ⟨newer, c', hr, hn, hl, ht, _, hq⟩ :=
      ih fun i hi => hf i (Nat.lt_succ_of_lt hi)
    have hnw := hf n (Nat.lt_succ_self n)
    rw [← hn] at hnw
    have hf' : c'.Free c'.nextTag := by
      unfold Free
      rw [hl]
      exact hnw
    refine ⟨_ :: _ :: newer, c'.turned, run_turned hr hf', ?_, hl, ht, ?_, ?_⟩
    · change c'.nextTag + 1 = _
      rw [hn, UInt16.add_assoc]
      congr 1
      exact (UInt16.ofNat_add n 1).symm
    · intro _
      exact saturatingSucc_ne_zero _
    · intro tag htg
      have hne : c'.nextTag ≠ tag := by
        intro heq
        rw [heq] at hnw
        exact htg hnw
      rw [List.forall_mem_cons, List.forall_mem_cons]
      refine ⟨?_, id, hq tag htg⟩
      intro hs
      rcases hs with h | h
      · exact hne h
      · exact h

/-- The attach answered before its flush. -/
def answered : Client := (receive (.attach 0 ⟨0x80, 0, 1⟩)).exec flushing |>.2

/-- The reply that answers it. -/
def answer : Event := .received (.attach 0 ⟨0x80, 0, 1⟩) (.ok (.completion 0 (.attach ⟨0x80, 0,
    1⟩)))

private theorem step_answered : Step flushing answer answered := by
  have hr : ((receive (.attach 0 ⟨0x80, 0, 1⟩)).exec flushing).1 =
      .ok (.completion 0 (.attach ⟨0x80, 0, 1⟩)) := by decide +kernel
  exact .received flushing _

private theorem answered_live (tag : Tag) :
    answered.pending.live[tag]? = if 1 = tag then some ⟨1, 1⟩ else none := by
  change ((((∅ : Std.ExtTreeMap Tag RequestKey).insert 0 ⟨0, 0⟩).insert 1 ⟨1, 1⟩).erase 0)[tag]? = _
  rw [get_erase, get_insert, get_insert]
  by_cases hz : 0 = tag
  · rw [if_pos hz, ← hz]
    rfl
  · rw [if_neg hz, if_neg hz]
    rfl

private theorem answered_free {i : Nat} (hi : i < 65533) :
    answered.Free (answered.nextTag + UInt16.ofNat i) := by
  have hn : (answered.nextTag + UInt16.ofNat i).toNat = 2 + i := by
    rw [UInt16.toNat_add, UInt16.toNat_ofNat_of_lt' (Nat.lt_trans hi (by decide))]
    change (2 + i) % 65536 = 2 + i
    omega
  constructor
  · intro heq
    rw [heq] at hn
    change 65535 = 2 + i at hn
    omega
  · rw [answered_live, if_neg]
    intro heq
    rw [← heq] at hn
    change 1 = 2 + i at hn
    omega

/-- Once every other tag has had its turn, tag 0 goes to a request that the flush of the
attach then takes down. -/
theorem flush_target_reused : ∃ (history since older : List Event) (c : Client) (key : RequestKey),
    client.Run history c ∧ history = since ++ .flushed 1 0 (some ⟨0, 0⟩) :: older ∧
      (∀ e ∈ since, ¬ e.Settles 1) ∧ .requested 0 ∈ since ∧ key ≠ ⟨0, 0⟩ ∧
      c.pending.live[(0 : Tag)]? = some key ∧
      ((receive (.flush 1)).exec c).2.pending.live[(0 : Tag)]? = none := by
  have ha : client.Run [answer, .flushed 1 0 (some ⟨0, 0⟩), .requested 0] answered :=
    .next (.next (.next (.start rfl) step_attachSent) step_flushing) step_answered
  obtain ⟨newer, c, hr, hn, hl, ht, hg, hq⟩ :=
    run_rounds 65533 ha fun i hi => answered_free hi
  have ho : ¬ answered.Free 1 := by
    intro hf
    have hnn := hf.2
    rw [answered_live] at hnn
    cases hnn
  have hz : c.Free 0 := by
    unfold Free
    rw [hl, answered_live]
    decide
  have hw : c.nextTag = NOTAG := by
    rw [hn]
    decide +kernel
  have hb := clunk_exec 0 (allocTag_wrap hw hz)
  refine ⟨_, .requested 0 :: newer ++ [answer], [.requested 0], c.claim 0,
    ⟨0, c.pending.nextGeneration⟩, .next hr (.requested _ hb), ?_, ?_, ?_, ?_, ?_, ?_⟩
  · rw [List.append_assoc]
    rfl
  · rw [List.forall_mem_append, List.forall_mem_cons]
    refine ⟨⟨id, hq 1 ho⟩, fun e he => ?_⟩
    rw [List.mem_singleton.mp he]
    intro hs
    rcases hs with h | h
    · cases h
    · exact h
  · exact List.mem_append_left _ List.mem_cons_self
  · intro heq
    apply hg _ (congrArg RequestKey.generation heq)
    decide +kernel
  · unfold claim
    rw [get_insert, if_pos rfl]
  · have hfl : (c.claim 0).pending.live[(1 : Tag)]? = some ⟨1, 1⟩ := by
      unfold claim
      rw [get_insert, if_neg (by decide), hl, answered_live]
      rfl
    apply receive_flush (by decide) (by decide) hfl
    change c.flushTargets[(1 : Tag)]? = some 0
    rw [ht]
    decide +kernel

end R9P.Client
