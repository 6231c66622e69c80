import R9P.Client.Protocol

/-!
# What the client does with its tags

Library `Client`. `Allocates` says which tag a new request gets: the first free one from
`next_tag` on. `Retires` says what a response, an abandoned request and a new version do:
they free tags and forget flush targets, and nothing else.
-/

namespace R9P.Client
open Base Base.Checked Wire Server

/-- A tag that may be handed out. -/
def Free (c : Client) (tag : Tag) : Prop := tag ≠ NOTAG ∧ c.pending.live[tag]? = none

/-- How many tags the next allocation looks at before this one. -/
def ahead (c : Client) (tag : Tag) : Nat := (tag - c.nextTag).toNat

/-- A request took the first free tag. -/
structure Allocates (c : Client) (tag : Tag) (c' : Client) : Prop where
  free : c.Free tag
  first : ∀ other, c.Free other → c.ahead tag ≤ c.ahead other
  live_eq : c'.pending.live = c.pending.live.insert tag ⟨tag, c.pending.nextGeneration⟩

/-- Tags were freed and flush targets forgotten. -/
structure Retires (c c' : Client) : Prop where
  live : ∀ (tag : Tag) (key : RequestKey), c'.pending.live[tag]? = some key →
    c.pending.live[tag]? = some key
  targets : ∀ (tag oldtag : Tag), c'.flushTargets[tag]? = some oldtag →
    c.flushTargets[tag]? = some oldtag

variable {c c' : Client} {tag : Tag}

/-! ### Allocation -/

-- Passing over a tag brings every other tag one closer.
private theorem sub_succ_toNat {tag next : Tag} (h : tag ≠ next) :
    (tag - next).toNat = (tag - (next + 1)).toNat + 1 := by
  have hne : tag.toNat ≠ next.toNat := fun heq => h (UInt16.toNat_inj.mp heq)
  have ht := tag.toNat_lt
  have hn := next.toNat_lt
  rw [UInt16.toNat_sub, UInt16.toNat_sub, UInt16.toNat_add]
  have ho : (1 : UInt16).toNat = 1 := rfl
  omega

private theorem Free.isLive_eq (hf : c.Free tag) : c.pending.isLive tag = false := by
  rw [RequestTable.isLive, Std.ExtTreeMap.contains_eq_isSome_getElem?, hf.2]
  rfl

private theorem begin_ok (hf : c.Free tag) : c.pending.begin tag =
    .ok (⟨tag, c.pending.nextGeneration⟩, ⟨saturatingSucc c.pending.nextGeneration,
        c.pending.live.insert tag ⟨tag, c.pending.nextGeneration⟩⟩) := by
  have hc : c.pending.live.contains tag = false := hf.isLive_eq
  rw [RequestTable.begin, if_neg hf.1, hc]
  rfl

/-- What looking for a tag can come to. -/
def AllocOutcome (c : Client) : Result Tag → Client → Prop
  | .ok tag, c' => c.Allocates tag c' ∧ c'.flushTargets = c.flushTargets
  | .error _, c' => c'.pending = c.pending ∧ c'.flushTargets = c.flushTargets

-- A tag that is passed over is not free, so it is none of those to be compared.
private theorem AllocOutcome.pass {result : Result Tag} (htk : ¬ c.Free c.nextTag)
    (h : AllocOutcome { c with nextTag := c.nextTag + 1 } result c') :
    c.AllocOutcome result c' := by
  cases result with
  | error e => exact h
  | ok tag =>
    obtain ⟨ha, ht⟩ := h
    have hne (other : Tag) (ho : c.Free other) : other ≠ c.nextTag := by
      intro heq
      rw [heq] at ho
      exact htk ho
    refine ⟨⟨ha.free, fun other ho => ?_, ha.live_eq⟩, ht⟩
    have hle := ha.first other ho
    have htg := sub_succ_toNat (hne tag ha.free)
    have hot := sub_succ_toNat (hne other ho)
    unfold ahead at hle ⊢
    dsimp only at hle
    omega

-- The loop stops at the first free tag, and otherwise only moves on.
private theorem allocLoop_spec (n : Nat) (c : Client) :
    c.AllocOutcome (allocLoop n c).1 (allocLoop n c).2 := by
  induction n generalizing c with
  | zero => exact ⟨rfl, rfl⟩
  | succ n ih =>
    rw [allocLoop]
    by_cases hno : c.nextTag = NOTAG
    · rw [if_pos hno]
      apply AllocOutcome.pass _ (ih _)
      intro hf
      exact hf.1 hno
    · rw [if_neg hno]
      by_cases hf : c.Free c.nextTag
      · rw [hf.isLive_eq, if_pos (by rfl), begin_ok hf]
        refine ⟨⟨hf, fun other _ => ?_, rfl⟩, rfl⟩
        have hz : c.ahead c.nextTag = 0 := by simp [ahead]
        omega
      · have hl : c.pending.isLive c.nextTag = true := by
          rw [RequestTable.isLive, Std.ExtTreeMap.contains_eq_isSome_getElem?]
          by_contra hn
          exact hf ⟨hno, by simpa using hn⟩
        rw [hl, if_neg (by simp)]
        exact .pass hf (ih _)

theorem wp_allocTag {Q : Result Tag → Client → Prop}
    (he : ∀ e c', c'.pending = c.pending → c'.flushTargets = c.flushTargets → Q (.error e) c')
    (hok : ∀ tag c', c.Allocates tag c' → c'.flushTargets = c.flushTargets → Q (.ok tag) c') :
    allocTag.wp Q c := by
  have hs := allocLoop_spec 65535 c
  rw [allocTag, wp_ofExec]
  generalize allocLoop 65535 c = out at hs ⊢
  obtain ⟨result, c'⟩ := out
  cases result with
  | error e => exact he e c' hs.1 hs.2
  | ok tag => exact hok tag c' hs.1 hs.2

-- The tags in the order in which an allocation looks at them.
private theorem ahead_add (c : Client) {k : Nat} (hk : k < 65536) :
    c.ahead (c.nextTag + UInt16.ofNat k) = k := by
  unfold ahead
  rw [UInt16.add_comm, UInt16.add_sub_cancel]
  exact UInt16.toNat_ofNat_of_lt' hk

-- The tags between `next_tag` and the one taken are all in use, or the one never handed out.
private theorem Allocates.passed (h : c.Allocates tag c') {k : Nat} (hk : k < c.ahead tag) :
    c.nextTag + UInt16.ofNat k ∈ insert NOTAG (keySet c.pending.live) := by
  have hlt : c.ahead tag < 65536 := (tag - c.nextTag).toNat_lt
  have ha := c.ahead_add (k := k) (by omega)
  have htk : ¬ c.Free (c.nextTag + UInt16.ofNat k) := by
    intro hf
    have hle := h.first _ hf
    omega
  rw [Finset.mem_insert, mem_keySet, mem_iff_exists]
  by_cases hno : c.nextTag + UInt16.ofNat k = NOTAG
  · exact .inl hno
  · right
    apply Option.ne_none_iff_exists'.mp
    intro hn
    exact htk ⟨hno, hn⟩

/-- The tag taken is no further ahead than there are tags in use. -/
theorem Allocates.ahead_le (h : c.Allocates tag c') : c.ahead tag ≤ c.pending.live.size + 1 := by
  have hlt : c.ahead tag < 65536 := (tag - c.nextTag).toNat_lt
  have hi : Set.InjOn (fun k => c.nextTag + UInt16.ofNat k) (Finset.range (c.ahead tag)) := by
    intro k hk l hl heq
    have hk' : k < c.ahead tag := by simpa using hk
    have hl' : l < c.ahead tag := by simpa using hl
    have ha := congrArg c.ahead heq
    rwa [c.ahead_add (by omega), c.ahead_add (by omega)] at ha
  calc c.ahead tag = (Finset.range (c.ahead tag)).card := (Finset.card_range _).symm
    _ ≤ (insert NOTAG (keySet c.pending.live)).card :=
        Finset.card_le_card_of_injOn _ (fun k hk => h.passed (by simpa using hk)) hi
    _ ≤ (keySet c.pending.live).card + 1 := Finset.card_insert_le _ _
    _ = c.pending.live.size + 1 := by rw [card_keySet]

/-- No allocation reaches this tag yet: it lies further ahead than there are tags in use. -/
def Distant (c : Client) (tag : Tag) : Prop := c.pending.live.size + 1 < c.ahead tag

theorem Allocates.ne_of_distant {other : Tag} (h : c.Allocates tag c') (ho : c.Distant other) :
    tag ≠ other := by
  intro heq
  have hle := h.ahead_le
  rw [heq] at hle
  unfold Distant at ho
  omega

/-- The client once a request has taken this tag. -/
def claim (c : Client) (tag : Tag) : Client :=
  { c with
    nextTag := tag + 1
    pending := ⟨saturatingSucc c.pending.nextGeneration,
      c.pending.live.insert tag ⟨tag, c.pending.nextGeneration⟩⟩ }

private theorem allocLoop_next (n : Nat) (hf : c.Free c.nextTag) :
    allocLoop (n + 1) c = (.ok c.nextTag, c.claim c.nextTag) := by
  rw [allocLoop]
  rw [if_neg hf.1, hf.isLive_eq, if_pos (by rfl), begin_ok hf]
  rfl

/-- A free tag that is next is taken. -/
theorem allocTag_next (hf : c.Free c.nextTag) :
    allocTag.exec c = (.ok c.nextTag, c.claim c.nextTag) :=
  allocLoop_next 65534 hf

/-- Behind the last tag the allocation comes round to the first. -/
theorem allocTag_wrap (hn : c.nextTag = NOTAG) (hf : c.Free 0) :
    allocTag.exec c = (.ok 0, c.claim 0) := by
  have hr : c.nextTag + 1 = 0 := by
    rw [hn]
    decide
  change allocLoop (65534 + 1) c = _
  rw [allocLoop]
  rw [if_pos hn, hr]
  exact allocLoop_next (c := { c with nextTag := 0 }) 65533 hf

-- The loop comes to a free tag that is near enough, if it does not stop at one before.
private theorem allocLoop_found {n : Nat} (hf : c.Free tag) (hn : c.ahead tag < n) :
    ∃ found, c.Free found ∧ allocLoop n c = (.ok found, c.claim found) := by
  induction n generalizing c with
  | zero => omega
  | succ n ih =>
    by_cases hx : c.Free c.nextTag
    · exact ⟨c.nextTag, hx, allocLoop_next n hx⟩
    · have hne : tag ≠ c.nextTag := fun heq => hx (heq ▸ hf)
      have hs := sub_succ_toNat hne
      obtain ⟨found, hfd, he⟩ := ih (c := { c with nextTag := c.nextTag + 1 }) hf (by
        unfold ahead at hn ⊢
        dsimp only
        omega)
      refine ⟨found, hfd, ?_⟩
      rw [allocLoop]
      split
      · exact he
      · next hno =>
        have hl : c.pending.isLive c.nextTag = true := by
          rw [RequestTable.isLive, Std.ExtTreeMap.contains_eq_isSome_getElem?]
          by_contra hn
          exact hx ⟨hno, by simpa using hn⟩
        rw [hl, if_neg (by simp)]
        exact he

/-- A free tag is found unless it is the one that was taken last, which the loop does not come
back to. -/
theorem allocTag_free (hf : c.Free tag) (hn : c.ahead tag < 65535) :
    ∃ found, c.Free found ∧ allocTag.exec c = (.ok found, c.claim found) :=
  allocLoop_found hf hn

/-- With no request pending, a tag is found. -/
theorem allocTag_idle (hi : c.pending.live = ∅) :
    ∃ tag, c.Free tag ∧ allocTag.exec c = (.ok tag, c.claim tag) := by
  have hf (tag : Tag) (ht : tag ≠ NOTAG) : c.Free tag := by
    refine ⟨ht, ?_⟩
    rw [hi]
    exact Std.ExtTreeMap.getElem?_empty
  by_cases hno : c.nextTag = NOTAG
  · refine allocTag_free (hf 0 (by decide)) ?_
    unfold ahead
    rw [hno]
    decide
  · refine allocTag_free (hf c.nextTag hno) ?_
    unfold ahead
    rw [UInt16.sub_self]
    decide

/-- The request constructors. -/
inductive Request where
  | attach (uname aname : Bytes)
  | walk (fid : Fid) (wnames : List Bytes)
  | open (fid : Fid) (mode : UInt8)
  | read (fid : Fid) (offset : UInt64) (count : UInt32)
  | write (fid : Fid) (offset : UInt64) (data : Bytes)
  | create (fid : Fid) (name : Bytes) (perm : UInt32) (mode : UInt8)
  | clunk (fid : Fid)
  | remove (fid : Fid)
  | stat (fid : Fid)
  | wstat (fid : Fid) (stat : Stat)
  | renameAt (olddirfid : Fid) (oldname : Bytes) (newdirfid : Fid) (newname : Bytes)
  | referrals (fid : Fid)

/-- The constructor called. -/
def Request.build : Request → Checked Client Error Op
  | attach uname aname => Client.attach uname aname
  | walk fid wnames => Client.walk fid wnames
  | .open fid mode => Client.open fid mode
  | read fid offset count => Client.read fid offset count
  | write fid offset data => Client.write fid offset data
  | create fid name perm mode => Client.create fid name perm mode
  | clunk fid => Client.clunk fid
  | remove fid => Client.remove fid
  | stat fid => Client.stat fid
  | wstat fid value => Client.wstat fid value
  | renameAt olddirfid oldname newdirfid newname =>
    Client.renameAt olddirfid oldname newdirfid newname
  | referrals fid => Client.referrals fid

/-- What building a request can come to. -/
def BuildOutcome (c : Client) : Result Op → Client → Prop
  | .ok op, c' => c.Allocates op.tag c' ∧ c'.flushTargets = c.flushTargets
  | .error _, c' => c'.pending = c.pending ∧ c'.flushTargets = c.flushTargets

private theorem wp_request (fid : Option Fid) (build : Tag → TMessage) :
    (request fid build).wp c.BuildOutcome c := by
  unfold request
  rw [wp_bind]
  exact wp_allocTag (fun _ _ hp ht => ⟨hp, ht⟩) fun _ _ ha ht => ⟨ha, ht⟩

-- A request with a fid of its own takes the tag first; the fid changes neither table.
private theorem wp_requestFid (build : Tag → Fid → TMessage) : wp (do
      let tag ← allocTag
      let fid ← allocFid
      pure ⟨tag, some fid, build tag fid⟩) c.BuildOutcome c := by
  rw [wp_bind]
  refine wp_allocTag (fun _ _ hp ht => ⟨hp, ht⟩) fun tag c' ha ht => ?_
  exact ⟨⟨ha.free, ha.first, ha.live_eq⟩, ht⟩

/-- Every request takes the first free tag and nothing else of the two tables. -/
theorem wp_build (r : Request) : r.build.wp c.BuildOutcome c := by
  cases r with
  | attach uname aname => exact wp_requestFid fun tag fid => .attach tag fid NOFID uname aname
  | walk fid wnames => exact wp_requestFid fun tag newfid => .walk tag fid newfid wnames
  | _ => exact wp_request _ _

/-- What a flush can come to. -/
def FlushOutcome (c : Client) (oldtag : Tag) : Result Op → Client → Prop
  | .ok op, c' => oldtag ≠ NOTAG ∧ op.message = .flush op.tag oldtag ∧ c.Allocates op.tag c' ∧
      c'.flushTargets = c.flushTargets.insert op.tag oldtag
  | .error _, c' => c'.pending = c.pending ∧ c'.flushTargets = c.flushTargets

/-- A flush is a request that also remembers its target. -/
theorem wp_flush (oldtag : Tag) : (flush oldtag).wp (c.FlushOutcome oldtag) c := by
  refine wp_refuseIf_bind (fun _ => ⟨rfl, rfl⟩) fun ho => ?_
  rw [wp_bind]
  refine wp_allocTag (fun _ _ hp ht => ⟨hp, ht⟩) fun tag c' ha ht => ?_
  refine ⟨of_decide_eq_false ho, rfl, ⟨ha.free, ha.first, ha.live_eq⟩, ?_⟩
  exact congrArg (fun targets => targets.insert tag oldtag) ht

/-! ### Retirement -/

section
variable (c : Client) (tag : Tag)

theorem dropPending_live : (c.dropPending tag).pending.live = if tag = NOTAG then c.pending.live
      else c.pending.live.erase tag := by
  unfold dropPending RequestTable.flush
  by_cases hno : tag = NOTAG
  · rw [if_pos hno, if_pos hno]
  · rw [if_neg hno, if_neg hno]

theorem dropPending_targets : (c.dropPending tag).flushTargets = c.flushTargets := by
  unfold dropPending
  split
  · rfl
  · rfl

/-- Abandoning a request frees its tag. -/
theorem abandon_live : (c.abandon tag).pending.live = if tag = NOTAG then c.pending.live
      else c.pending.live.erase tag := by
  unfold abandon
  by_cases hno : tag = NOTAG
  · rw [if_pos hno, if_pos hno]
  · rw [if_neg hno]
    exact dropPending_live c tag

theorem abandon_targets : (c.abandon tag).flushTargets = if tag = NOTAG then c.flushTargets
      else c.flushTargets.erase tag := by
  unfold abandon
  by_cases hno : tag = NOTAG
  · rw [if_pos hno, if_pos hno]
  · rw [if_neg hno, if_neg hno]
    exact congrArg (fun targets => targets.erase tag) (dropPending_targets c tag)

theorem abandon_nextTag : (c.abandon tag).nextTag = c.nextTag := by
  unfold abandon dropPending RequestTable.flush
  by_cases hno : tag = NOTAG
  · rw [if_pos hno]
  · rw [if_neg hno, if_neg hno]

theorem abandon_retires : c.Retires (c.abandon tag) := by
  constructor
  · intro other key h
    rw [abandon_live] at h
    split at h
    · exact h
    · rw [get_erase] at h
      split at h
      · cases h
      · exact h
  · intro other oldtag h
    rw [abandon_targets] at h
    split at h
    · exact h
    · rw [get_erase] at h
      split at h
      · cases h
      · exact h

end

theorem versionRequestFor_retires (c : Client) (msize : UInt32) (variant : Variant) :
    c.Retires (c.versionRequestFor msize variant).2 := by
  constructor
  · intro tag key h
    cases h
  · intro tag oldtag h
    cases h

/-- The text by which the reader of a multiplexed client knows a late response. -/
def unknownTag : Error := .fromStatic "unknown response tag"

/-- A message read as a response. -/
def ClientResponse.of : RMessage → ClientResponse
  | .version tag msize version => .completion tag (.version msize version)
  | .error tag ename => .error tag ename
  | .attach tag qid => .completion tag (.attach qid)
  | .auth tag aqid => .completion tag (.auth aqid)
  | .flush tag => .completion tag .flush
  | .walk tag qids => .completion tag (.walk qids)
  | .open tag qid iounit => .completion tag (.open qid iounit)
  | .create tag qid iounit => .completion tag (.create qid iounit)
  | .read tag data => .completion tag (.read data)
  | .write tag count => .completion tag (.write count)
  | .clunk tag => .completion tag .clunk
  | .remove tag => .completion tag .remove
  | .stat tag value => .completion tag (.stat value)
  | .wstat tag => .completion tag .wstat
  | .renameAt tag => .completion tag .renameAt
  | .referrals tag found => .completion tag (.referrals found)

@[simp] theorem ClientResponse.tag_of (m : RMessage) : (ClientResponse.of m).tag = m.tag := by
  cases m <;> rfl

/-- A response that opened a new session. -/
def Negotiated : Result ClientResponse → Prop
  | .ok (.completion _ (.version _ _)) => True
  | _ => False

/-- What taking a response can come to. -/
structure Received (c : Client) (m : RMessage) (result : Result ClientResponse) (c' : Client) :
    Prop where
  retires : c.Retires c'
  notag : Negotiated result → m.tag = NOTAG
  only : ¬ Negotiated result → ∀ (tag : Tag) (key : RequestKey),
    c.pending.live[tag]? = some key → c'.pending.live[tag]? = none →
    tag = m.tag ∨ c.flushTargets[m.tag]? = some tag
  kept : ¬ Negotiated result → ∀ tag oldtag : Tag, c.flushTargets[tag]? = some oldtag →
    tag ≠ m.tag → c'.flushTargets[tag]? = some oldtag
  answers : ∀ response, result = .ok response → response = .of m
  known : m.tag ≠ NOTAG → ∀ key : RequestKey, c.pending.live[m.tag]? = some key →
    ∀ e, result = .error e → e ≠ unknownTag

variable {m : RMessage} {result : Result ClientResponse}

-- A response that is refused without being looked up changes neither table.
private theorem Received.refused {e : Error} (hp : c'.pending = c.pending)
    (ht : c'.flushTargets = c.flushTargets)
    (hk : m.tag ≠ NOTAG → ∀ key : RequestKey, c.pending.live[m.tag]? = some key →
      e ≠ unknownTag) : c.Received m (.error e) c' := by
  constructor
  · constructor
    · intro tag key h
      rwa [hp] at h
    · intro tag oldtag h
      rwa [ht] at h
  · intro h
    cases h
  · intro _ tag key hl hn
    rw [hp, hl] at hn
    cases hn
  · intro _ tag oldtag h _
    rwa [ht]
  · intro response h
    cases h
  · intro htg key hky e' he
    cases he
    exact hk htg key hky

/-- The tables once the tag of a response is free. -/
def retire (c : Client) (tag : Tag) : Client :=
  { c with pending := { c.pending with live := c.pending.live.erase tag } }

-- A response that frees its tag, with what its arm then does to the two tables.
private theorem Received.answered
    (hnt : ¬ Negotiated result)
    (hl : ∀ tag : Tag, c'.pending.live[tag]? = (c.retire m.tag).pending.live[tag]? ∨
      c'.pending.live[tag]? = none ∧ c.flushTargets[m.tag]? = some tag)
    (ht : c'.flushTargets = c.flushTargets ∨
      c'.flushTargets = c.flushTargets.erase m.tag)
    (ha : ∀ response, result = .ok response → response = .of m)
    (hk : ∀ e, result = .error e → e ≠ unknownTag) : c.Received m result c' := by
  have hr (tag : Tag) : (c.retire m.tag).pending.live[tag]? =
      if m.tag = tag then none else c.pending.live[tag]? := get_erase
  have hkp (tag : Tag) (htg : tag ≠ m.tag) : c'.flushTargets[tag]? = c.flushTargets[tag]? := by
    rcases ht with h | h
    · rw [h]
    · rw [h, get_erase, if_neg (Ne.symm htg)]
  constructor
  · constructor
    · intro tag key h
      rcases hl tag with hs | ⟨hn, _⟩
      · rw [hs, hr] at h
        split at h
        · cases h
        · exact h
      · rw [hn] at h
        cases h
    · intro tag oldtag h
      rcases ht with hs | he
      · rwa [hs] at h
      · rw [he, get_erase] at h
        split at h
        · cases h
        · exact h
  · intro h
    exact absurd h hnt
  · intro _ tag key hky hn
    by_cases htg : m.tag = tag
    · exact .inl htg.symm
    · rcases hl tag with hs | ⟨_, htr⟩
      · rw [hs, hr, if_neg htg, hky] at hn
        cases hn
      · exact .inr htr
  · intro _ tag oldtag h htg
    rwa [hkp tag htg]
  · exact ha
  · intro _ key _
    exact hk

theorem wp_finish {Q : Result Unit → Client → Prop}
    (hb : tag = NOTAG → Q (.error (.fromStatic EBADTAG)) c)
    (hu : c.pending.live[tag]? = none → Q (.error unknownTag) c)
    (hok : Q (.ok ()) (c.retire tag)) : (finish tag).wp Q c := by
  unfold finish RequestTable.flush
  rw [wp_bind, wp_ofExec]
  by_cases hno : tag = NOTAG
  · rw [if_pos hno]
    exact hb hno
  · rw [if_neg hno]
    cases hl : c.pending.live[tag]? with
    | none =>
      have hs : c.pending.live.erase tag = c.pending.live := erase_eq_self hl
      dsimp only
      rw [hs]
      exact hu hl
    | some key => exact hok

-- The tables of an arm that only frees the tag.
private theorem Received.plain
    (hnt : ¬ Negotiated result)
    (ha : ∀ response, result = .ok response → response = .of m)
    (hk : ∀ e, result = .error e → e ≠ unknownTag) :
    c.Received m result (c.retire m.tag) :=
  .answered hnt (fun _ => .inl rfl) (.inl rfl) ha hk

-- The start of every arm but that of a version.
private theorem wp_finish_bind {k : Unit → Checked Client Error ClientResponse}
    (hok : (k ()).wp (c.Received m) (c.retire m.tag)) :
    (finish m.tag >>= k).wp (c.Received m) c := by
  rw [wp_bind]
  apply wp_finish
  · intro _
    exact .refused rfl rfl fun _ _ _ => by decide
  · intro hn
    refine .refused rfl rfl fun _ key hky => ?_
    rw [hn] at hky
    cases hky
  · exact hok

variable {completion : Completion} {tag : Tag}

-- An arm that succeeds with what the response says.
section
variable (hnt : ¬ Negotiated (.ok (.completion m.tag completion)))
  (hof : .of m = ClientResponse.completion m.tag completion)
include hnt hof

private theorem Received.completed :
    c.Received m (.ok (.completion m.tag completion)) (c.retire m.tag) := by
  apply Received.plain hnt
  · intro response h
    rw [hof]
    cases h
    rfl
  · intro e h
    cases h

private theorem wp_completeWith : (completeWith m.tag completion).wp (c.Received m) c := by
  apply wp_finish_bind
  exact .completed hnt hof

end

private theorem ne_unknownTag {text : String} (h : (utf8 text).head? ≠ some 0x75) :
    Error.fromStatic text ≠ unknownTag := by
  intro heq
  have hm : utf8 text = utf8 "unknown response tag" := congrArg Error.message heq
  rw [hm] at h
  exact h (by decide)

private theorem iounit_ne_unknownTag (iounit msize : UInt32) :
    Error.fromStatic s!"iounit {iounit} exceeds negotiated msize {msize}" ≠ unknownTag := by
  apply ne_unknownTag
  have hf : (utf8 "i").head? ≠ some 0x75 := by decide
  exact hf

private theorem msize_ne_unknownTag (msize requested : UInt32) :
    Error.fromStatic s!"invalid negotiated msize {msize} for request {requested}" ≠ unknownTag := by
  apply ne_unknownTag
  have hf : (utf8 "i").head? ≠ some 0x75 := by decide
  exact hf

private theorem wp_completeOpened {iounit : UInt32}
    (hnt : ¬ Negotiated (.ok (.completion m.tag completion)))
    (hof : .of m = ClientResponse.completion m.tag completion) :
    (completeOpened m.tag iounit completion).wp (c.Received m) c := by
  apply wp_finish_bind
  apply wp_ask_bind
  · intro e he
    unfold validateIounit at he
    split at he
    · cases he
      apply Received.plain id
      · intro response h
        cases h
      · intro e h
        cases h
        exact iounit_ne_unknownTag iounit _
    · cases he
  · intro _ _
    rw [wp_pure]
    exact .completed hnt hof

-- The new session knows no request of the old one.
private theorem Received.negotiated {msize : UInt32} {version : Bytes}
    (htg : tag = NOTAG) (hp : c'.pending.live = ∅) (ht : c'.flushTargets = ∅) :
    c.Received (.version tag msize version) (.ok (.completion tag (.version msize version)))
      c' := by
  constructor
  · constructor
    · intro tag key h
      rw [hp] at h
      cases h
    · intro tag oldtag h
      rw [ht] at h
      cases h
  · intro _
    exact htg
  · intro h
    exact absurd trivial h
  · intro h
    exact absurd trivial h
  · intro response h
    cases h
    rfl
  · intro _ key _ e h
    cases h

private theorem wp_receive_version (tag : Tag) (msize : UInt32) (version : Bytes) :
    (receive (.version tag msize version)).wp (c.Received (.version tag msize version)) c := by
  unfold receive takeRequestedMsize
  apply wp_refuseIf_bind
  · intro _
    exact .refused rfl rfl fun _ _ _ => by decide
  intro htg
  rw [wp_bind, wp_ofExec]
  apply wp_ask_bind
  · intro e he
    cases hr : c.requestedMsize with
    | none =>
      rw [hr] at he
      cases he
      exact .refused rfl rfl fun _ _ _ => by decide
    | some requested =>
      rw [hr] at he
      cases he
  intro requested _
  apply wp_refuseIf_bind
  · intro _
    exact .refused rfl rfl fun _ _ _ => msize_ne_unknownTag msize requested
  intro _
  have hno : tag = NOTAG := by simpa using htg
  exact .negotiated hno rfl rfl

-- An error reply to a version leaves the pending requests alone.
private theorem Received.failed {ename : Bytes} (hp : c'.pending = c.pending)
    (ht : c'.flushTargets = c.flushTargets.erase tag) :
    c.Received (.error tag ename) (.ok (.error tag ename)) c' := by
  constructor
  · constructor
    · intro other key h
      rwa [hp] at h
    · intro other oldtag h
      rw [ht, get_erase] at h
      split at h
      · cases h
      · exact h
  · intro h
    cases h
  · intro _ other key hl hn
    rw [hp, hl] at hn
    cases hn
  · intro _ other oldtag h ho
    have hne : tag ≠ other := Ne.symm ho
    rw [ht, get_erase, if_neg hne]
    exact h
  · intro response h
    cases h
    rfl
  · intro _ key _ e h
    cases h

private theorem wp_receive_error (tag : Tag) (ename : Bytes) :
    (receive (.error tag ename)).wp (c.Received (.error tag ename)) c := by
  unfold receive takeRequestedMsize
  dsimp only
  by_cases htg : tag = NOTAG
  · rw [if_pos htg, wp_bind, wp_ofExec]
    apply wp_ask_bind
    · intro e _
      exact .refused rfl rfl fun h _ _ => absurd htg h
    · intro _ _
      exact .failed rfl rfl
  · rw [if_neg htg]
    apply wp_finish_bind (m := .error tag ename)
    rw [wp_bind, wp_update]
    apply Received.answered (m := .error tag ename) id
    · intro _
      exact .inl rfl
    · exact .inr rfl
    · intro response h
      cases h
      rfl
    · intro e h
      cases h

-- The arm that also drops what the flush was aimed at.
private theorem wp_receive_flush (tag : Tag) :
    (receive (.flush tag)).wp (c.Received (.flush tag)) c := by
  apply wp_finish_bind (m := .flush tag)
  have hr : ∀ response, (.ok (.completion tag .flush) : Result ClientResponse) =
      .ok response → response = .of (.flush tag) := by
    intro response h
    cases h
    rfl
  have hok : ∀ e, (.ok (.completion tag .flush) : Result ClientResponse) = .error e →
      e ≠ unknownTag := by
    intro e h
    cases h
  rw [wp_bind, wp_update, wp_pure]
  cases htr : (c.retire (RMessage.flush tag).tag).flushTargets[tag]? with
  | none => exact Received.plain (m := .flush tag) id hr hok
  | some oldtag =>
    dsimp only
    apply Received.answered (m := .flush tag) id _ _ hr hok
    · intro other
      rw [dropPending_live]
      split
      · exact .inl rfl
      · rw [get_erase]
        split
        · next _ heq =>
          rw [← heq]
          exact .inr ⟨rfl, htr⟩
        · exact .inl rfl
    · rw [dropPending_targets]
      exact .inr rfl

/-- Every arm of `receive` frees the tag of the response, drops the target of an answered
flush, and changes nothing else, unless it opens a new session. -/
theorem wp_receive (m : RMessage) : (receive m).wp (c.Received m) c := by
  cases m with
  | version tag msize version => exact wp_receive_version tag msize version
  | error tag ename => exact wp_receive_error tag ename
  | flush tag => exact wp_receive_flush tag
  | «open» tag qid iounit => exact wp_completeOpened (m := .open tag qid iounit) id rfl
  | create tag qid iounit => exact wp_completeOpened (m := .create tag qid iounit) id rfl
  | attach tag qid => exact wp_completeWith (m := .attach tag qid) id rfl
  | auth tag aqid => exact wp_completeWith (m := .auth tag aqid) id rfl
  | walk tag qids => exact wp_completeWith (m := .walk tag qids) id rfl
  | read tag data => exact wp_completeWith (m := .read tag data) id rfl
  | write tag count => exact wp_completeWith (m := .write tag count) id rfl
  | clunk tag => exact wp_completeWith (m := .clunk tag) id rfl
  | remove tag => exact wp_completeWith (m := .remove tag) id rfl
  | stat tag stat => exact wp_completeWith (m := .stat tag stat) id rfl
  | wstat tag => exact wp_completeWith (m := .wstat tag) id rfl
  | renameAt tag => exact wp_completeWith (m := .renameAt tag) id rfl
  | referrals tag referrals => exact wp_completeWith (m := .referrals tag referrals) id rfl

/-- A reply to a pending request frees its tag. -/
theorem finish_exec {key : RequestKey} (htg : tag ≠ NOTAG)
    (hl : c.pending.live[tag]? = some key) :
    (finish tag).exec c = (.ok (), c.retire tag) := by
  have hf : (finish tag).wp (fun r c' => (r, c') = (.ok (), c.retire tag)) c := by
    apply wp_finish
    · intro hno
      exact absurd hno htg
    · intro hn
      rw [hl] at hn
      cases hn
    · rfl
  exact hf

theorem receive_clunk {key : RequestKey} (htg : tag ≠ NOTAG)
    (hl : c.pending.live[tag]? = some key) :
    (receive (.clunk tag)).exec c = (.ok (.completion tag .clunk), c.retire tag) := by
  unfold receive completeWith
  dsimp only
  rw [exec_bind, finish_exec htg hl]
  rfl

theorem clunk_exec (fid : Fid) (ha : allocTag.exec c = (.ok tag, c.claim tag)) :
    (Request.clunk fid).build.exec c = (.ok ⟨tag, some fid, .clunk tag fid⟩, c.claim tag) := by
  change (allocTag >>= _).exec c = _
  rw [exec_bind, ha]
  rfl

end R9P.Client
