import R9P.Server.Completion

/-!
# What one call preserves

Library `Server`. Each end of an admission or of a completion keeps a session well formed,
takes no claim from a request that stays live, and keeps the number of fids within the
limit. The last holds for a completion only while its request has the claims it laid.
-/

namespace R9P.Server
open Base Wire
open ServerRequestKind (claims)

namespace Session

variable {s s' : Session} {key other : RequestKey} {m : TMessage} {event : ServerEvent}
  {r : ServerRequest} {result : Result ServerCompletion} {reply : Option RMessage}
  {f : Fid} {c : Claim}

/-! ### The changes a call is made of -/

/-- A version request leaves only the configuration and the generations used. -/
theorem reset_frame {msize : UInt32} {version : Bytes}
    (h : (s.resetForVersion msize version).2 = s') : ∃ msize' version' variant negotiated,
      s' = ⟨s.config, msize', version', variant, negotiated, ∅, ∅, s.requests.reset⟩ := by
  rw [← h]
  unfold resetForVersion
  dsimp only
  split
  · exact ⟨_, _, _, _, rfl⟩
  · split
    all_goals exact ⟨_, _, _, _, rfl⟩

/-- A session without fids, reservations and requests is well formed. -/
theorem wf_of_empty (hf : s.fids = ∅) (hrs : s.reservations = ∅)
    (hl : s.requests.live = ∅) : s.WF := by
  have he (f : Fid) : s.entry f = .default := by
    rw [entry, hrs]
    rfl
  constructor
  · intro f r hr
    rw [hrs] at hr
    cases hr
  · intro f
    rw [he]
    exact .inl rfl
  · intro f key hk
    rw [he] at hk
    cases hk
  · intro f hne
    rw [he] at hne
    exact absurd rfl hne
  · intro f key hk
    rw [he] at hk
    rcases hk with ⟨_, hx⟩ | hx
    all_goals cases hx
  · intro tag key hk
    rw [hl] at hk
    cases hk
  · intro _
    exact ⟨hf, hrs, hl⟩

theorem wf_new (config : ServerConfig) : (new config).WF := wf_of_empty rfl rfl rfl

theorem WF.advance (h : s.WF) : s.advance.WF :=
  ⟨h.nonempty, h.apart, h.fresh_unbound, h.shared_bound, h.named_live, h.filed, h.idle⟩

/-- The table of a request that has begun. -/
theorem isLive_begun {tag : Tag} : (s.begun tag).IsLive other ↔
    other = s.nextKey tag ∨ tag ≠ other.tag ∧ s.IsLive other := by
  change (s.requests.live.insert tag (s.nextKey tag))[other.tag]? = some other ↔ _
  rw [get_insert]
  by_cases ht : tag = other.tag
  · simp only [ht, if_true, Option.some.injEq, ne_eq, not_true, false_and, or_false]
    exact eq_comm
  · have hne : other ≠ s.nextKey tag := by
      intro h
      rw [h] at ht
      exact ht rfl
    simp [ht, hne, IsLive]

theorem WF.begun (h : s.WF) (hb : s.Begins m) : (s.begun m.tag).WF := by
  refine ⟨h.nonempty, h.apart, h.fresh_unbound, h.shared_bound, ?_, ?_, ?_⟩
  · intro f key hk
    have hl := h.named_live f key hk
    rw [isLive_begun]
    right
    refine ⟨fun ht => ?_, hl⟩
    rw [IsLive, ← ht, hb.unused] at hl
    cases hl
  · intro tag key hk
    change (s.requests.live.insert m.tag (s.nextKey m.tag))[tag]? = some key at hk
    rw [get_insert] at hk
    split at hk
    · next ht =>
      rw [← Option.some.inj hk]
      exact ht
    · exact h.filed tag key hk
  · intro hn
    exact absurd (hb.negotiated.symm.trans hn) (by simp)

/-- Cancelling a tag finishes the request that holds it, if there is one. -/
theorem WF.cancel_eq (h : s.WF) {oldtag : Tag} : s.cancel oldtag = s ∨
    ∃ key, key.tag = oldtag ∧ s.IsLive key ∧ s.cancel oldtag = s.finished key := by
  unfold cancel
  cases ho : s.requests.live[oldtag]? with
  | none =>
    left
    rw [erase_eq_self ho]
    rfl
  | some key =>
    right
    have ht := h.filed oldtag key ho
    refine ⟨key, ht, ?_, ?_⟩
    · rwa [IsLive, ht]
    · rw [Session.finished, ht]

/-- Cancelling a tag drops the requests with that tag and no others. -/
theorem isLive_cancel {oldtag : Tag} :
    (s.cancel oldtag).IsLive other ↔ oldtag ≠ other.tag ∧ s.IsLive other := by
  have hl : (s.cancel oldtag).requests.live = s.requests.live.erase oldtag := by
    unfold cancel
    split
    · rfl
    · rfl
  rw [IsLive, hl, get_erase]
  by_cases ht : oldtag = other.tag
  · simp [ht]
  · simp [ht, IsLive]

/-- Finishing a request takes no claim of another. -/
theorem holds_finished (hne : other ≠ key) (h : s.Holds other f c) :
    (s.finished key).Holds other f c := by
  apply holds_releaseReservations _ hne
  cases c <;> exact h

theorem occupied_finished : (s.finished key).occupied ⊆ s.occupied := by
  intro f hf
  rw [mem_occupied] at hf ⊢
  rcases hf with hf | ⟨k, hk⟩
  · exact .inl hf
  · rw [entry_finished, FidReservations.release_exclusive_eq_some] at hk
    exact .inr ⟨k, hk.1⟩

variable {st : FidState}

/-- Binding a fid that nobody reserves. -/
theorem WF.bind (h : s.WF) (hf : s.entry f = .default)
    (hn : s.negotiated = true) : (s.bind f st).WF := by
  refine ⟨h.nonempty, h.apart, ?_, ?_, h.named_live, h.filed, ?_⟩
  · intro g key hk hm
    have hg : f ≠ g := by
      intro hg
      rw [← hg] at hk
      change (s.entry f).exclusive = _ at hk
      rw [hf] at hk
      cases hk
    rcases mem_insert_eq.mp hm with hg' | hm
    · exact hg hg'
    · exact h.fresh_unbound g key hk hm
  · intro g hne
    have hm := h.shared_bound g hne
    exact mem_insert_eq.mpr (.inr hm)
  · intro hn'
    exact absurd (hn.symm.trans hn') (by simp)

theorem mem_bind {g : Fid} : g ∈ (s.bind f st).fids ↔ f = g ∨ g ∈ s.fids :=
  mem_insert_eq

/-- Binding a fid that nobody reserves leaves every claim. -/
theorem holds_bind {g : Fid} (hf : s.entry f = .default)
    (h : s.Holds other g c) : (s.bind f st).Holds other g c := by
  by_cases hg : f = g
  · rw [hg] at hf
    exact absurd h (not_holds_of_entry_default hf)
  · have hm : g ∈ (s.bind f st).fids ↔ g ∈ s.fids := by
      rw [mem_bind]
      simp [hg]
    have he : (s.bind f st).entry g = s.entry g := rfl
    exact (holds_congr he hm).mpr h

/-! ### Admission -/

section

variable (h : s.Admission m event s')
include h

/-- A call leaves the configuration alone. -/
theorem Admission.config_eq : s'.config = s.config := by
  cases h with
  | version message reset answer =>
    obtain ⟨_, _, _, _, heq⟩ := reset_frame reset
    rw [heq]
  | rejected e uses | refused e begins => rfl
  | flushed begins old found =>
    unfold cancel
    split
    · rfl
    · rfl
  | dispatched begins permits acquires => rw [acquires.frame]; rfl

/-- The generation moves exactly when the message uses one. -/
theorem Admission.nextGeneration_eq : s'.requests.nextGeneration =
      if s.usesGeneration m then saturatingSucc s.requests.nextGeneration
      else s.requests.nextGeneration := by
  cases h with
  | version message reset answer =>
    obtain ⟨_, _, _, _, heq⟩ := reset_frame reset
    rw [heq]
    rfl
  | rejected e uses => rw [uses]; rfl
  | refused e begins => rw [begins.uses]; rfl
  | flushed begins old found =>
    rw [begins.uses]
    unfold cancel
    split
    · rfl
    · rfl
  | dispatched begins permits acquires => rw [begins.uses, acquires.frame]; rfl

theorem Admission.wf (hs : s.WF) : s'.WF := by
  cases h with
  | version message reset answer =>
    obtain ⟨_, _, _, _, heq⟩ := reset_frame reset
    rw [heq]
    exact wf_of_empty rfl rfl rfl
  | rejected e uses => exact hs
  | refused e begins => exact hs.advance
  | flushed begins old found =>
    rcases hs.cancel_eq with heq | ⟨key, -, hl, heq⟩
    · rw [heq]
      exact hs.advance
    · rw [heq]
      exact (hs.finished hl).advance
  | dispatched begins permits acquires =>
    exact acquires.wf (hs.begun begins) begins.negotiated (isLive_begun.mpr (.inl rfl))

/-- A version request leaves a well formed session without requests. -/
theorem Admission.version_resets (hm : m.messageType = TVERSION) :
    s'.WF ∧ ∀ key, ¬ s'.IsLive key := by
  cases h with
  | version message reset answer =>
    obtain ⟨_, _, _, _, heq⟩ := reset_frame reset
    rw [heq]
    refine ⟨wf_of_empty rfl rfl rfl, ?_⟩
    intro key hl
    cases hl
  | rejected e uses =>
    cases m with
    | version => cases uses
    | _ => cases hm
  | refused e begins | dispatched begins permits acquires => exact absurd hm begins.not_version
  | flushed begins old found => cases hm

/-- A request that is live after an admission was live before, unless it began with it. -/
theorem Admission.live_before (hs : s.WF) (hl : s'.IsLive other)
    (ho : ∀ r, event = .dispatch r → other ≠ r.key) : s.IsLive other := by
  cases h with
  | version message reset answer =>
    obtain ⟨_, _, _, _, heq⟩ := reset_frame reset
    rw [IsLive, heq] at hl
    cases hl
  | rejected e uses | refused e begins => exact hl
  | flushed begins old found =>
    rcases hs.cancel_eq with heq | ⟨key, -, -, heq⟩
    · rw [heq] at hl
      exact hl
    · rw [heq] at hl
      exact (isLive_finished.mp hl).2
  | dispatched begins permits acquires =>
    rw [IsLive, acquires.frame] at hl
    rcases isLive_begun.mp hl with hn | ⟨-, hl⟩
    · exact absurd hn (ho _ rfl)
    · exact hl

/-- A live request stays live through every admission but that of a version request or of a
flush of its tag. -/
theorem Admission.live_after (hm : m.messageType ≠ TVERSION)
    (hf : ∀ tag reply outcome, m = .flush tag other.tag → event ≠ .flush reply outcome)
    (hl : s.IsLive other) : s'.IsLive other := by
  cases h with
  | version message reset answer => exact absurd rfl hm
  | rejected e uses | refused e begins => exact hl
  | @flushed tag oldtag outcome begins old found =>
    apply isLive_cancel.mpr
    refine ⟨?_, hl⟩
    intro ht
    exact hf tag _ outcome (by rw [ht]) rfl
  | dispatched begins permits acquires =>
    rw [IsLive, acquires.frame]
    refine isLive_begun.mpr (.inr ⟨?_, hl⟩)
    intro ht
    rw [IsLive, ← ht, begins.unused] at hl
    cases hl

end

/-- A dispatched request is live. -/
theorem Admission.live_new (h : s.Admission m (.dispatch r) s') : s'.IsLive r.key := by
  cases h with
  | dispatched begins permits acquires =>
    rw [IsLive, acquires.frame]
    exact isLive_begun.mpr (.inl rfl)

/-- An admission takes no claim from a request that stays live. -/
theorem Admission.keeps (h : s.Admission m event s') (hs : s.WF) (hl : s'.IsLive other)
    (hd : s.Holds other f c) : s'.Holds other f c := by
  cases h with
  | version message reset answer =>
    obtain ⟨_, _, _, _, heq⟩ := reset_frame reset
    rw [IsLive, heq] at hl
    cases hl
  | rejected e uses => exact hd
  | refused e begins => exact (holds_congr rfl .rfl).mpr hd
  | flushed begins old found =>
    rcases hs.cancel_eq with heq | ⟨key, -, -, heq⟩
    · rw [heq]
      exact (holds_congr rfl .rfl).mpr hd
    · rw [heq] at hl ⊢
      have hne : other ≠ key := by
        intro hsm
        exact (isLive_finished.mp hl).1 (by rw [hsm])
      exact (holds_congr rfl .rfl).mpr (holds_finished hne hd)
  | dispatched begins permits acquires =>
    exact acquires.keeps ((holds_congr rfl .rfl).mpr hd)

theorem count_mono (hs : s.WF) (hs' : s'.WF) (hsb : s'.occupied ⊆ s.occupied) :
    s'.fidCount ≤ s.fidCount := by
  rw [← hs.card_occupied, ← hs'.card_occupied]
  exact Finset.card_le_card hsb

/-- An admission keeps the number of fids within the limit. -/
theorem Admission.room (h : s.Admission m event s') (hs : s.WF)
    (hr : s.fidCount ≤ s.config.maxFids) : s'.fidCount ≤ s'.config.maxFids := by
  have hs' := h.wf hs
  have hc := h.config_eq
  cases h with
  | version message reset answer =>
    obtain ⟨_, _, _, _, heq⟩ := reset_frame reset
    rw [heq]
    exact Nat.zero_le _
  | rejected e uses | refused e begins => exact hr
  | flushed begins old found =>
    rw [hc]
    apply Nat.le_trans _ hr
    apply count_mono hs hs'
    rcases hs.cancel_eq with heq | ⟨key, -, -, heq⟩
    · rw [heq]
      exact Finset.Subset.refl _
    · rw [heq]
      exact occupied_finished
  | dispatched begins permits acquires =>
    exact acquires.count_le (hs.begun begins) begins.negotiated (isLive_begun.mpr (.inl rfl))
      hr

/-! ### Completion -/

variable {kind : ServerRequestKind} {message : RMessage}

/-- A request newly binds only a fid that it promised to bind or holds alone. -/
theorem claims_of_binding (h : kind.binding message = some (f, st)) :
    (f, .fresh) ∈ kind.claims ∨ (f, .held) ∈ kind.claims := by
  unfold ServerRequestKind.binding at h
  split at h
  · cases h
    simp [claims]
  · cases h
    left
    rw [claims]
    split
    · simp
    · simp
  · next fid newfid _ _ _ _ =>
    have hf : f = newfid := by
      split at h
      · split at h
        · cases h
        · exact (congrArg Prod.fst (Option.some.inj h)).symm
      · split at h
        · obtain ⟨_, -, hx⟩ := Option.map_eq_some_iff.mp h
          exact (congrArg Prod.fst hx).symm
        · cases h
    rw [claims]
    by_cases hsm : newfid = fid
    all_goals simp [hsm, hf]
  · cases h
    simp [claims]
  · cases h
    simp [claims]
  · cases h

/-- A directory read holds its fid alone. -/
theorem claims_of_readEnd {offset : UInt64} (h : kind.readEnd message = some (f, offset)) :
    (f, .held) ∈ kind.claims := by
  unfold ServerRequestKind.readEnd at h
  split at h
  · split at h
    · next hd =>
      cases h
      simp [claims, hd]
    · cases h
  · cases h

/-- A completion binds only a fid that its request promised to bind or holds alone. -/
theorem claims_of_bindingOf (h : s.bindingOf kind message = some (f, st)) :
    (f, .fresh) ∈ kind.claims ∨ (f, .held) ∈ kind.claims := by
  unfold bindingOf at h
  split at h
  · next fid offset he =>
    obtain ⟨_, -, hx⟩ := Option.map_eq_some_iff.mp h
    have hf : fid = f := congrArg Prod.fst hx
    exact .inr (hf ▸ claims_of_readEnd he)
  · exact claims_of_binding h

section

variable (h : s.Completion r result reply s')
include h

theorem Completion.config_eq : s'.config = s.config := by
  cases h with
  | stale dead | failed e live cause => rfl
  | answered live negotiated answers bindable =>
    unfold bindOpt
    split
    · rfl
    · rfl

theorem Completion.nextGeneration_eq : s'.requests.nextGeneration = s.requests.nextGeneration := by
  cases h with
  | stale dead | failed e live cause => rfl
  | answered live negotiated answers bindable =>
    unfold bindOpt
    split
    · rfl
    · rfl

/-- Completing keeps the fid within the claims of its request, so it is free once those
claims are given up. -/
theorem Completion.wf (hs : s.WF) : s'.WF := by
  cases h with
  | stale dead => exact hs
  | failed e live cause => exact hs.finished live
  | answered live negotiated answers bindable =>
    have hn : s.negotiated = true := by
      by_contra hn
      obtain ⟨-, -, he⟩ := hs.idle (Bool.eq_false_iff.mpr hn)
      rw [IsLive, he] at live
      cases live
    unfold bindOpt
    split
    · next f st hb => exact (hs.finished live).bind (bindable f st hb).free hn
    · exact hs.finished live

/-- A request that is live after a completion was live before and is another one. -/
theorem Completion.live_before (hl : s'.IsLive other) : s.IsLive other := by
  cases h with
  | stale dead => exact hl
  | failed e live cause => exact (isLive_finished.mp hl).2
  | answered live negotiated answers bindable =>
    unfold bindOpt at hl
    split at hl
    all_goals exact (isLive_finished.mp hl).2

/-- Another live request stays live through a completion. -/
theorem Completion.live_after (hne : r.key ≠ other) (hl : s.IsLive other) : s'.IsLive other := by
  have hf (live : s.IsLive r.key) : (s.finished r.key).IsLive other := by
    refine isLive_finished.mpr ⟨?_, hl⟩
    intro ht
    rw [IsLive, ht] at live
    exact hne (Option.some.inj (live.symm.trans hl))
  cases h with
  | stale dead => exact hl
  | failed e live cause => exact hf live
  | answered live negotiated answers bindable =>
    unfold bindOpt
    split
    all_goals exact hf live

/-- A live request gets a reply with its tag. -/
theorem Completion.replied :
    (s.IsLive r.key → reply.isSome = true) ∧ ∀ message, reply = some message →
      message.tag = r.tag := by
  cases h with
  | stale dead => exact ⟨fun live => absurd live dead, nofun⟩
  | failed e live cause =>
    refine ⟨fun _ => rfl, fun message hm => ?_⟩
    rw [← Option.some.inj hm, errorReply_eq]
    rfl
  | answered live negotiated answers bindable =>
    refine ⟨fun _ => rfl, fun message hm => ?_⟩
    rw [← Option.some.inj hm]
    exact answers.tag_eq

/-- The request completed is not live afterwards. -/
theorem Completion.dead : ¬ s'.IsLive r.key := by
  cases h with
  | stale dead => exact dead
  | failed e live cause => exact fun hl => (isLive_finished.mp hl).1 rfl
  | answered live negotiated answers bindable =>
    intro hl
    unfold bindOpt at hl
    split at hl
    all_goals exact (isLive_finished.mp hl).1 rfl

/-- A completion takes no claim from a request that stays live. -/
theorem Completion.keeps (hl : s'.IsLive other) (hd : s.Holds other f c) : s'.Holds other f c := by
  have hne : other ≠ r.key := by
    intro hsm
    rw [hsm] at hl
    exact h.dead hl
  cases h with
  | stale dead => exact hd
  | failed e live cause => exact holds_finished hne hd
  | answered live negotiated answers bindable =>
    have hd' := holds_finished hne hd
    unfold bindOpt
    split
    · next g st hb => exact holds_bind (bindable g st hb).free hd'
    · exact hd'

/-- A completion whose request has its claims keeps the number of fids within the limit:
the fid it binds was bound or promised before. -/
theorem Completion.room (hs : s.WF)
    (hc : s.IsLive r.key → ∀ f c, (f, c) ∈ r.kind.claims → s.Holds r.key f c)
    (hr : s.fidCount ≤ s.config.maxFids) : s'.fidCount ≤ s'.config.maxFids := by
  have hs' := h.wf hs
  rw [h.config_eq]
  apply Nat.le_trans (count_mono hs hs' _) hr
  cases h with
  | stale dead => exact Finset.Subset.refl _
  | failed e live cause => exact occupied_finished
  | answered live negotiated answers bindable =>
    unfold bindOpt
    split
    · next f st hb =>
      intro g hg
      by_cases hfg : f = g
      · rw [← hfg, mem_occupied]
        rcases claims_of_bindingOf hb with hcl | hcl
        · exact .inr ⟨r.key, hc live f .fresh hcl⟩
        · exact .inl (hc live f .held hcl).2
      · apply occupied_finished
        rw [mem_occupied, mem_bind] at hg
        rw [mem_occupied]
        rcases hg with (hfg' | hm) | hp
        · exact absurd hfg' hfg
        · exact .inl hm
        · exact .inr hp
    · exact occupied_finished

end

/-! ### What the claims of a request are good for -/

theorem WF.release_eq_default (hs : s.WF) {newFid : Bool}
    (h : (s.entry f).exclusive = some ⟨key, newFid⟩) : (s.finished key).entry f = .default := by
  have hsh : (s.entry f).shared = ∅ := by
    rcases hs.apart f with hn | hsh
    · exact absurd (hn.symm.trans h) (by simp)
    · exact hsh
  rw [entry_finished, FidReservations.release, h, hsh]
  simp [FidReservations.default]

/-- A promised fid leaves room for one more to be bound. -/
theorem WF.size_lt_of_promised (hs : s.WF) (h : (s.entry f).exclusive = some ⟨key, true⟩) :
    s.fids.size < s.fidCount := by
  rw [← hs.card_occupied, ← card_keySet]
  apply Finset.card_lt_card
  have hsb : keySet s.fids ⊆ s.occupied := Finset.subset_union_left
  rw [Finset.ssubset_iff_of_subset hsb]
  refine ⟨f, mem_occupied.mpr (.inr ⟨key, h⟩), ?_⟩
  rw [mem_keySet]
  exact hs.fresh_unbound f key h

/-- A live request with its claims can bind what it is about to bind. -/
theorem WF.ready (hs : s.WF) (hr : s.fidCount ≤ s.config.maxFids)
    (hc : ∀ f c, (f, c) ∈ kind.claims → s.Holds key f c) : (s.finished key).Ready kind := by
  have hfr (f : Fid) (hf : (f, .fresh) ∈ kind.claims) :
      f ∉ (s.finished key).fids ∧ (s.finished key).Bindable f := by
    have hh := hc f .fresh hf
    have hlt := hs.size_lt_of_promised hh
    exact ⟨hs.fresh_unbound f key hh, hs.release_eq_default hh, .inr (Nat.lt_of_lt_of_le hlt hr)⟩
  have hh (f : Fid) (hf : (f, .held) ∈ kind.claims) :
      f ∈ (s.finished key).fids ∧ (s.finished key).Bindable f := by
    have hh := hc f .held hf
    exact ⟨hh.2, hs.release_eq_default hh.1, .inl hh.2⟩
  cases kind with
  | auth afid uname aname => exact hfr afid (by simp [claims])
  | attach fid afid uname aname =>
    apply hfr fid
    rw [claims]
    split
    · simp
    · simp
  | walk fid newfid start wnames =>
    rw [Ready]
    split
    · next hsm => exact hh fid (by simp [claims, hsm])
    · next ho => exact hfr newfid (by simp [claims, ho])
  | «open» fid qid mode | create fid qid name perm mode =>
    exact hh fid (by simp [claims])
  | read fid qid offset count =>
    intro hd
    exact hh fid (by simp [claims, hd])
  | _ => trivial

end Session

end R9P.Server
