import R9P.Base.Runs
import R9P.Client.Tags

/-!
# The fids of the client

Library `Client`. `alloc_fid` counts from 1 to the last fid before `NOFID` and starts again; it
never asks whether a fid is still in use. The fids that a run has handed out are therefore known
in advance: the `n`-th is `nthFid n`. A fid comes back after `FID_PERIOD` allocations and not
before.
-/

namespace R9P.Client
open Std Base Base.Checked Wire Server

/-- What a call of the client came to, with the request it sends. -/
inductive Call where
  | reset
  | sent (op : Op)
  | refused
  | abandoned (tag : Tag)
  | received (m : RMessage) (result : Result ClientResponse)
  deriving DecidableEq

/-- The calls of a client. -/
inductive CallStep : Client → Call → Client → Prop
  | reset (c : Client) (msize : UInt32) (variant : Variant) :
      CallStep c .reset (c.versionRequestFor msize variant).2
  | sent {c c' : Client} {op : Op} (r : Request) (built : r.build.exec c = (.ok op, c')) :
      CallStep c (.sent op) c'
  | refused {c c' : Client} {e : Error} (r : Request)
      (failed : r.build.exec c = (.error e, c')) : CallStep c .refused c'
  | flushed {c c' : Client} {op : Op} (oldtag : Tag)
      (built : (flush oldtag).exec c = (.ok op, c')) : CallStep c (.sent op) c'
  | unflushed {c c' : Client} {e : Error} (oldtag : Tag)
      (failed : (flush oldtag).exec c = (.error e, c')) : CallStep c .refused c'
  | abandoned (c : Client) (tag : Tag) : CallStep c (.abandoned tag) (c.abandon tag)
  | received (c : Client) (m : RMessage) :
      CallStep c (.received m ((receive m).exec c).1) ((receive m).exec c).2

/-- A client from its creation on, with the requests it sends. -/
def calling : System Client Call := ⟨fun c => c = .new, CallStep⟩

/-- The new fid of an attach or a walk. -/
def Op.opens (op : Op) : Option Fid :=
  match op.message with
  | .attach _ fid _ _ _ => some fid
  | .walk _ _ newfid _ => some newfid
  | _ => none

/-- The fid that a clunk or a remove gives back. -/
def Op.closes (op : Op) : Option Fid :=
  match op.message with
  | .clunk _ fid | .remove _ fid => some fid
  | _ => none

/-- The new fid that a call hands out. -/
def Call.opens : Call → Option Fid
  | sent op => op.opens
  | _ => none

/-- The fids handed out, the newest first. -/
def handedOut (history : List Call) : List Fid := history.filterMap Call.opens

/-- The fid whose clunk or remove was the last request with this tag. -/
def closing (tag : Tag) : List Call → Option Fid
  | [] => none
  | .sent op :: history => if op.tag = tag then op.closes else closing tag history
  | _ :: history => closing tag history

/-- The fid that a reply confirms to be given back. -/
def confirms (history : List Call) : RMessage → Option Fid
  | .clunk tag | .remove tag => closing tag history
  | _ => none

/-- The fids that were handed out and whose clunk or remove was not confirmed since. -/
def liveFids : List Call → List Fid
  | [] => []
  | .sent op :: history => op.opens.toList ++ liveFids history
  | .received m (.ok _) :: history =>
    (liveFids history).filter fun fid => confirms history m ≠ some fid
  | _ :: history => liveFids history

/-- How many fids there are between 0 and `NOFID`. -/
def FID_PERIOD : Nat := 2 ^ 32 - 2

/-- The fid that the `n`-th allocation hands out. -/
def nthFid (n : Nat) : Fid := UInt32.ofNat (n % FID_PERIOD + 1)

/-- Every live fid is among the last allocations that came before its turn comes round. -/
def Recent (history : List Call) : Prop :=
  ∀ fid ∈ liveFids history, fid ∈ (handedOut history).take (FID_PERIOD - 1)

/-! ### The counter -/

variable (n : Nat) (tag : Tag)

theorem toNat_nthFid : (nthFid n).toNat = n % FID_PERIOD + 1 := by
  have hlt : n % FID_PERIOD < FID_PERIOD := Nat.mod_lt n (by decide)
  apply Nat.mod_eq_of_lt
  unfold FID_PERIOD at hlt ⊢
  omega

theorem nthFid_ne_NOFID : nthFid n ≠ NOFID := by
  intro h
  have hlt : n % FID_PERIOD < FID_PERIOD := Nat.mod_lt n (by decide)
  have ht := congrArg UInt32.toNat h
  rw [toNat_nthFid] at ht
  have hno : NOFID.toNat = 2 ^ 32 - 1 := by decide
  unfold FID_PERIOD at hlt ht
  omega

/-- Two allocations that are less than a period apart hand out different fids. -/
theorem nthFid_ne {m n : Nat} (hlt : m < n) (hn : n < m + FID_PERIOD) : nthFid n ≠ nthFid m := by
  intro h
  have ht := congrArg UInt32.toNat h
  rw [toNat_nthFid, toNat_nthFid] at ht
  have hm : (n - m) % FID_PERIOD = 0 := Nat.sub_mod_eq_zero_of_mod_eq (by omega)
  have hle := Nat.le_of_dvd (by omega) (Nat.dvd_of_mod_eq_zero hm)
  omega

/-- The counter moves on to the next fid, past `NOFID` to 1. -/
theorem nthFid_succ : nthFid (n + 1) = if nthFid n + 1 = NOFID then 1 else nthFid n + 1 := by
  have hlt : n % FID_PERIOD < FID_PERIOD := Nat.mod_lt n (by decide)
  have hno : NOFID.toNat = 2 ^ 32 - 1 := by decide
  have ho : (1 : UInt32).toNat = 1 := rfl
  have hs : (nthFid n + 1).toNat = n % FID_PERIOD + 2 := by
    rw [UInt32.toNat_add, toNat_nthFid, ho]
    apply Nat.mod_eq_of_lt
    unfold FID_PERIOD at hlt ⊢
    omega
  have hm : (n + 1) % FID_PERIOD =
      if n % FID_PERIOD + 1 = FID_PERIOD then 0 else n % FID_PERIOD + 1 := by
    rw [Nat.add_mod_eq_ite, Nat.mod_eq_of_lt (show 1 < FID_PERIOD by decide)]
    by_cases hl : n % FID_PERIOD + 1 = FID_PERIOD
    · rw [if_pos (by omega), if_pos hl, hl, Nat.sub_self]
    · rw [if_neg (by omega), if_neg hl]
  apply UInt32.toNat_inj.mp
  rw [toNat_nthFid, hm]
  by_cases hl : n % FID_PERIOD + 1 = FID_PERIOD
  · have hw : nthFid n + 1 = NOFID := by
      apply UInt32.toNat_inj.mp
      rw [hs, hno]
      unfold FID_PERIOD at hl ⊢
      omega
    rw [if_pos hl, if_pos hw, ho]
  · have hn : nthFid n + 1 ≠ NOFID := by
      intro h
      have ht := congrArg UInt32.toNat h
      rw [hs, hno] at ht
      unfold FID_PERIOD at hlt hl ht
      omega
    rw [if_neg hl, if_neg hn, hs]

/-! ### What a call does to the counter -/

section NextFid

variable {c c' : Client}

theorem allocLoop_nextFid (c : Client) : (allocLoop n c).2.nextFid = c.nextFid := by
  induction n generalizing c with
  | zero => rfl
  | succ n ih =>
    rw [allocLoop]
    split
    · exact ih _
    · split
      · split
        all_goals rfl
      · exact ih _

theorem frames_allocTag : Checked.Frames nextFid allocTag := allocLoop_nextFid 65535

theorem frames_flush (oldtag : Tag) : Checked.Frames nextFid (flush oldtag) :=
  (frames_refuseIf _ _).bind fun _ => frames_allocTag.bind fun _ =>
    (frames_update (by intro _; rfl)).bind fun _ => frames_pure _

theorem dropPending_nextFid (c : Client) : (c.dropPending tag).nextFid = c.nextFid := by
  unfold dropPending
  split
  · rfl
  · rfl

theorem abandon_nextFid (c : Client) : (c.abandon tag).nextFid = c.nextFid := by
  unfold abandon
  split
  · rfl
  · exact dropPending_nextFid tag c

theorem frames_finish : Checked.Frames nextFid (finish tag) := by
  apply Checked.Frames.bind
  · intro c
    rw [exec_ofExec]
    split
    · rfl
    · rfl
  · intro outcome
    cases outcome with
    | cancelled key => exact frames_pure ()
    | unknown => exact frames_throw _

theorem frames_takeRequestedMsize : Checked.Frames nextFid takeRequestedMsize := fun _ => rfl

theorem frames_completeWith (completion : Completion) :
    Checked.Frames nextFid (completeWith tag completion) :=
  (frames_finish tag).bind fun _ => frames_pure _

theorem frames_completeOpened (iounit : UInt32) (completion : Completion) :
    Checked.Frames nextFid (completeOpened tag iounit completion) :=
  (frames_finish tag).bind fun _ => (frames_ask _).bind fun _ => frames_pure _

/-- No response moves the counter. -/
theorem frames_receive (m : RMessage) : Checked.Frames nextFid (receive m) := by
  cases m with
  | version tag msize version =>
    exact (frames_refuseIf _ _).bind fun _ => frames_takeRequestedMsize.bind fun _ =>
      (frames_ask _).bind fun _ => (frames_refuseIf _ _).bind fun _ =>
      (frames_update (by intro _; rfl)).bind fun _ => frames_pure _
  | error tag ename =>
    have he : Checked.Frames nextFid (do
        .update fun self => { self with flushTargets := self.flushTargets.erase tag }
        pure (.error tag ename) : Checked Client Error ClientResponse) :=
      (frames_update (by intro _; rfl)).bind fun _ => frames_pure _
    apply Checked.Frames.ite
    · exact frames_takeRequestedMsize.bind fun _ => (frames_ask _).bind fun _ => he
    · exact (frames_finish tag).bind fun _ => he
  | flush tag =>
    refine (frames_finish tag).bind fun _ => .bind ?_ fun _ => frames_pure _
    apply frames_update
    intro c
    split
    · exact dropPending_nextFid _ _
    · rfl
  | «open» tag qid iounit | create tag qid iounit => exact frames_completeOpened tag iounit _
  | attach tag qid | auth tag aqid | walk tag qids | read tag data | write tag count | clunk tag
  | remove tag | stat tag stat | wstat tag | renameAt tag | referrals tag referrals =>
    exact frames_completeWith tag _

/-- What a call does to the counter: it hands out the fid that is next, or leaves it alone. -/
def Counts (c : Client) (call : Call) (c' : Client) : Prop :=
  match call.opens with
  | some fid => fid = c.nextFid ∧ c'.nextFid = if c.nextFid + 1 = NOFID then 1 else c.nextFid + 1
  | none => c'.nextFid = c.nextFid

/-- What a request that was built does to the counter. -/
def OpCounts (c : Client) : Result Op → Client → Prop
  | .ok op, c' => Counts c (.sent op) c'
  | .error _, c' => c'.nextFid = c.nextFid

theorem wp_request_counts (fid : Option Fid) (build : Tag → TMessage)
    (h : ∀ tag, (Op.mk tag fid (build tag)).opens = none) :
    (request fid build).wp (OpCounts c) c := by
  apply frames_allocTag.wp_bind
  · intro e c' hs
    exact hs
  · intro tag c' _ hs
    show Counts c (.sent ⟨tag, fid, build tag⟩) c'
    unfold Counts Call.opens
    dsimp only
    rw [h tag]
    exact hs

/-- A request with a new fid takes the one that is next. -/
theorem wp_requestFid_counts (build : Tag → Fid → TMessage)
    (h : ∀ tag fid, (Op.mk tag (some fid) (build tag fid)).opens = some fid) :
    wp (do
      let tag ← allocTag
      let fid ← allocFid
      pure ⟨tag, some fid, build tag fid⟩) (OpCounts c) c := by
  apply frames_allocTag.wp_bind
  · intro e c' hs
    exact hs
  · intro tag c' _ hs
    show Counts c (.sent ⟨tag, some c'.nextFid, build tag c'.nextFid⟩)
      { c' with nextFid := if c'.nextFid + 1 = NOFID then 1 else c'.nextFid + 1 }
    unfold Counts Call.opens
    dsimp only
    rw [h tag, hs]
    exact ⟨rfl, rfl⟩

theorem wp_build_counts (r : Request) : r.build.wp (OpCounts c) c := by
  cases r with
  | attach uname aname =>
    exact wp_requestFid_counts (fun tag fid => .attach tag fid NOFID uname aname) fun _ _ => rfl
  | walk fid wnames =>
    exact wp_requestFid_counts (fun tag newfid => .walk tag fid newfid wnames) fun _ _ => rfl
  | _ => exact wp_request_counts _ _ fun _ => rfl

theorem wp_flush_counts (oldtag : Tag) : (flush oldtag).wp (OpCounts c) c := by
  have ho : (flush oldtag).wp (fun r _ => ∀ op, r = .ok op → op.opens = none) c := by
    refine wp_refuseIf_bind (fun _ op h => nomatch h) fun _ => ?_
    rw [wp_bind]
    refine wp_allocTag (fun _ _ _ _ op h => nomatch h) fun tag c' _ _ op h => ?_
    cases h
    rfl
  have hs := frames_flush oldtag c
  unfold wp at ho ⊢
  rcases he : (flush oldtag).exec c with ⟨r, c'⟩
  rw [he] at ho hs
  cases r with
  | error e => exact hs
  | ok op =>
    show Counts c (.sent op) c'
    unfold Counts Call.opens
    dsimp only
    rw [ho op rfl]
    exact hs

/-- Every call hands out the next fid or leaves the counter alone. -/
theorem CallStep.counts {call : Call} (step : CallStep c call c') : Counts c call c' := by
  cases step with
  | reset msize variant => rfl
  | sent r built => exact (wp_build_counts r).of_exec built
  | refused r failed => exact (wp_build_counts r).of_exec failed
  | flushed oldtag built => exact (wp_flush_counts oldtag).of_exec built
  | unflushed oldtag failed => exact (wp_flush_counts oldtag).of_exec failed
  | abandoned tag => exact abandon_nextFid tag c
  | received m => exact frames_receive m c

end NextFid

/-! ### Whole runs -/

variable {history older newer : List Call} {c : Client} {op : Op} {fid : Fid}

/-- The fids handed out are the first of the sequence, and the counter stands at the next. -/
def Counted (history : List Call) (c : Client) : Prop :=
  handedOut history = ((List.range (handedOut history).length).map nthFid).reverse ∧
    c.nextFid = nthFid (handedOut history).length

theorem handedOut_cons (call : Call) (history : List Call) :
    handedOut (call :: history) = call.opens.toList ++ handedOut history := by
  unfold handedOut
  cases h : call.opens with
  | none => rw [List.filterMap_cons_none h]; rfl
  | some fid => rw [List.filterMap_cons_some h]; rfl

theorem Counted.step {call : Call} {c' : Client} (h : Counted history c)
    (counts : Counts c call c') : Counted (call :: history) c' := by
  obtain ⟨hl, hn⟩ := h
  unfold Counts at counts
  unfold Counted
  rw [handedOut_cons]
  cases ho : call.opens with
  | none =>
    rw [ho] at counts
    exact ⟨hl, counts.trans hn⟩
  | some fid =>
    rw [ho] at counts
    obtain ⟨hf, ha⟩ := counts
    refine ⟨?_, ?_⟩
    · show fid :: handedOut history =
        ((List.range ((handedOut history).length + 1)).map nthFid).reverse
      rw [List.range_succ, List.map_append, List.reverse_append, ← hl, hf, hn]
      rfl
    · show c'.nextFid = nthFid ((handedOut history).length + 1)
      rw [nthFid_succ, ha, hn]

theorem run_counted (run : calling.Run history c) : Counted history c := by
  apply run.invariant (I := Counted)
  · intro c hn
    refine ⟨rfl, ?_⟩
    rw [hn]
    rfl
  · intro history c call c' _ ih step
    exact ih.step (CallStep.counts step)

/-- The state in which a call of the run was made. -/
theorem run_before (run : calling.Run (newer ++ .sent op :: older) c) :
    ∃ c' c'', calling.Run older c' ∧ CallStep c' (.sent op) c'' := by
  induction newer generalizing c with
  | nil =>
    cases run with
    | next hr hs => exact ⟨_, _, hr, hs⟩
  | cons call newer ih =>
    cases run with
    | next hr _ => exact ih hr

/-- A fid of the last allocations is none that is handed out next. -/
theorem Counted.nthFid_notMem (h : Counted history c)
    (hrc : fid ∈ (handedOut history).take (FID_PERIOD - 1)) : c.nextFid ≠ fid := by
  obtain ⟨hl, hn⟩ := h
  obtain ⟨i, hi, hf⟩ := List.mem_take_iff_getElem.mp hrc
  have hln : i < (handedOut history).length := by omega
  generalize handedOut history = handed at hl hn hrc hi hf hln
  have hnt : handed[i]? = some (nthFid (handed.length - 1 - i)) := by
    have hp : ((List.range handed.length).map nthFid).reverse[i]? =
        some (nthFid (handed.length - 1 - i)) := by
      rw [List.getElem?_reverse (by simpa using hln), List.length_map, List.length_range,
        List.getElem?_map, List.getElem?_range (by omega)]
      rfl
    rwa [← hl] at hp
  rw [List.getElem?_eq_getElem hln, hf] at hnt
  rw [hn, Option.some.inj hnt]
  apply nthFid_ne
  · omega
  · omega

/-- A client whose live fids are all recent never hands one of them out again; and no client ever
hands out `NOFID`. -/
theorem new_fid_not_live (run : calling.Run history c) :
    ∀ newer op older fid, history = newer ++ .sent op :: older → op.opens = some fid →
      fid ≠ NOFID ∧ (Recent older → fid ∉ liveFids older) := by
  intro newer op older fid hh ho
  rw [hh] at run
  obtain ⟨before, after, hr, hs⟩ := run_before run
  have hcn := run_counted hr
  have hc := CallStep.counts hs
  unfold Counts at hc
  rw [show (Call.sent op).opens = some fid from ho] at hc
  rw [hc.1]
  refine ⟨?_, ?_⟩
  · rw [hcn.2]
    exact nthFid_ne_NOFID _
  · intro hrc hl
    exact hcn.nthFid_notMem (hrc _ hl) rfl

/-- A client that attached and walks. -/
theorem new_fid_not_live_walk : (2 : Fid) ≠ NOFID ∧
    (2 : Fid) ∉ liveFids [.sent ⟨0, some 1, .attach 0 1 NOFID [] []⟩] := by
  have ha : ((Client.attach [] []).exec new).1 =
      .ok ⟨0, some 1, .attach 0 1 NOFID [] []⟩ := by decide +kernel
  have hw : ((Client.walk 1 []).exec ((Client.attach [] []).exec new).2).1 =
      .ok ⟨1, some 2, .walk 1 1 2 []⟩ := by decide +kernel
  have hr : calling.Run [.sent ⟨1, some 2, .walk 1 1 2 []⟩,
      .sent ⟨0, some 1, .attach 0 1 NOFID [] []⟩] _ :=
    .next (.next (.start rfl) (.sent (.attach [] []) (Prod.ext ha rfl)))
      (.sent (.walk 1 []) (Prod.ext hw rfl))
  obtain ⟨hno, hl⟩ := new_fid_not_live hr [] _ _ 2 rfl rfl
  refine ⟨hno, hl ?_⟩
  intro fid hf
  exact hf

/-! ### A counter that comes round -/

theorem walk_exec {tag : Tag} (fid : Fid) (ha : allocTag.exec c = (.ok tag, c.claim tag)) :
    (Request.walk fid []).build.exec c = (.ok ⟨tag, some c.nextFid, .walk tag fid c.nextFid []⟩,
        { c.claim tag with nextFid := if c.nextFid + 1 = NOFID then 1 else c.nextFid + 1 }) := by
  change (allocTag >>= _).exec c = _
  rw [exec_bind, ha]
  rfl

theorem receive_error {tag : Tag} {key : RequestKey} (ht : tag ≠ NOTAG)
    (hl : c.pending.live[tag]? = some key) (ename : Bytes) :
    (receive (.error tag ename)).exec c = (.ok (.error tag ename),
      { c.retire tag with flushTargets := c.flushTargets.erase tag }) := by
  unfold receive
  dsimp only
  rw [if_neg ht, exec_bind, finish_exec ht hl]
  rfl

section
variable (run : calling.Run history c) (hi : c.pending.live = ∅)
include run hi

/-- A walk that is refused uses up one fid and leaves no trace otherwise. -/
theorem run_refusedWalk (fid : Fid) :
    ∃ op m result c', calling.Run (.received m (.ok result) :: .sent op :: history) c' ∧
      c'.pending.live = ∅ ∧ (∃ ename, m = .error op.tag ename) ∧ op.opens = some c.nextFid := by
  obtain ⟨tag, ⟨ht, _⟩, ha⟩ := allocTag_idle hi
  have hb := walk_exec fid ha
  have hl : (c.claim tag).pending.live[tag]? = some ⟨tag, c.pending.nextGeneration⟩ := by
    unfold claim
    rw [get_insert, if_pos rfl]
  have hr := receive_error (c := { c.claim tag with
    nextFid := if c.nextFid + 1 = NOFID then 1 else c.nextFid + 1 }) ht hl []
  have hs := CallStep.received { c.claim tag with
    nextFid := if c.nextFid + 1 = NOFID then 1 else c.nextFid + 1 } (.error tag [])
  rw [hr] at hs
  refine ⟨_, _, _, _, .next (.next run (.sent _ hb)) hs, ?_, ⟨[], rfl⟩, rfl⟩
  show (c.pending.live.insert tag _).erase tag = ∅
  rw [erase_insert_self (by rw [hi]; exact ExtTreeMap.getElem?_empty), hi]

/-- So many refused walks; what is live stays live. -/
theorem run_refusedWalks (hl : fid ∈ liveFids history) :
    ∃ newer c', calling.Run (newer ++ history) c' ∧ c'.pending.live = ∅ ∧
      fid ∈ liveFids (newer ++ history) ∧
      (handedOut (newer ++ history)).length = (handedOut history).length + n := by
  induction n with
  | zero => exact ⟨[], c, run, hi, hl, rfl⟩
  | succ n ih =>
    obtain ⟨newer, c', hr, hi', hl', hln⟩ := ih
    obtain ⟨op, m, result, c'', hr', hi'', ⟨ename, hm⟩, ho⟩ :=
      run_refusedWalk hr hi' fid
    refine ⟨.received m (.ok result) :: .sent op :: newer, c'', hr', hi'', ?_, ?_⟩
    · rw [hm]
      show fid ∈ (op.opens.toList ++ liveFids (newer ++ history)).filter fun fid =>
        (none : Option Fid) ≠ some fid
      rw [List.mem_filter]
      exact ⟨List.mem_append_right _ hl', by simp⟩
    · show (handedOut (.received m (.ok result) :: .sent op :: (newer ++ history))).length = _
      rw [handedOut_cons, handedOut_cons]
      show (op.opens.toList ++ handedOut (newer ++ history)).length = _
      rw [ho, List.length_append, hln]
      show 1 + _ = _
      omega

end

/-- The client after its attach was answered. -/
def attached : Client :=
  ((receive (.attach 0 ⟨0, 0, 0⟩)).exec ((Client.attach [] []).exec new).2).2

/-- Behind as many walks as there are fids, the fid of the attach is handed out once more. -/
theorem attached_fid_handed_out_again : ∃ op older c,
    calling.Run (.sent op :: older) c ∧ op.opens = some 1 ∧ (1 : Fid) ∈ liveFids older := by
  have ha : ((Client.attach [] []).exec new).1 =
      .ok ⟨0, some 1, .attach 0 1 NOFID [] []⟩ := by decide +kernel
  have han : ((receive (.attach 0 ⟨0, 0, 0⟩)).exec ((Client.attach [] []).exec new).2).1 =
      .ok (.completion 0 (.attach ⟨0, 0, 0⟩)) := by decide +kernel
  have hs := CallStep.received ((Client.attach [] []).exec new).2 (.attach 0 ⟨0, 0, 0⟩)
  have hr : calling.Run [.received (.attach 0 ⟨0, 0, 0⟩) (.ok (.completion 0 (.attach ⟨0, 0, 0⟩))),
        .sent ⟨0, some 1, .attach 0 1 NOFID [] []⟩] attached :=
    .next (.next (.start rfl) (.sent (.attach [] []) (Prod.ext ha rfl))) hs
  have hf : (1 : Fid) ∈ liveFids
      [.received (.attach 0 ⟨0, 0, 0⟩) (.ok (.completion 0 (.attach ⟨0, 0, 0⟩))),
        .sent ⟨0, some 1, .attach 0 1 NOFID [] []⟩] := by decide
  obtain ⟨newer, c, hr, hi, hl, hln⟩ :=
    run_refusedWalks (FID_PERIOD - 1) hr (by decide +kernel) hf
  obtain ⟨op, _, _, c', hr', _, _, ho⟩ := run_refusedWalk hr hi 1
  cases hr' with
  | next hw _ =>
    refine ⟨op, _, _, hw, ?_, hl⟩
    rw [ho, (run_counted hr).2, hln]
    decide

end R9P.Client
