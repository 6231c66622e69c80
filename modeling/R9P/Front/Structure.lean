import R9P.Front.Tree
import R9P.Front.Upkeep

/-!
# The state of a front is well formed

Library `Front`. In every state that a front with its owner and its trees reaches, the tables of
the front agree with each other, a node is counted as often as fids are bound to it, and nothing
is kept that neither the tree nor a fid reaches.
-/

namespace R9P.Front
open Std Base Base.Checked Wire Server State

/-! ### Counting references -/

namespace State

variable {s s' : State} {id n count : Nat} {node : Node}

/-- How often fids refer to a node. -/
def references (s : State) (id : Nat) : Nat := s.fidReferences.getD id 0

theorem references_eq (s : State) (id : Nat) : s.references id = (s.fidReferences[id]?).getD 0 :=
  ExtTreeMap.getD_eq_getD_getElem?

/-- No count is zero. -/
def Positive (s : State) : Prop :=
  ∀ (id count : Nat), s.fidReferences[id]? = some count → 0 < count

/-- A change of the counts that leaves none to a node that is not there. -/
theorem Sound.recount (hs : s.Sound) {fidReferences : ExtTreeMap Nat Nat}
    (h : ∀ (id count : Nat), fidReferences[id]? = some count → ∃ node, s.nodes[id]? = some node) :
    { s with fidReferences := fidReferences }.Sound :=
  ⟨hs.root, hs.rootKept, hs.fresh, hs.indexed, hs.listed, hs.detached, hs.covered, h⟩

/-- One more reference to a node. -/
def retained (s : State) (id : Nat) : State :=
  { s with fidReferences := s.fidReferences.insert id (s.references id + 1) }

theorem references_retained (s : State) (id n : Nat) :
    (s.retained id).references n = s.references n + (if id = n then 1 else 0) := by
  rw [references_eq, references_eq, retained]
  rw [get_insert]
  split
  · next heq =>
    rw [← heq, Option.getD_some, references_eq]
  · rfl

theorem Firm.retained (hs : s.Firm) (hn : s.nodes[id]? = some node) : (s.retained id).Firm := by
  refine ⟨hs.sound.recount fun i count hc => ?_, fun d hd => ?_⟩
  · rw [get_insert] at hc
    split at hc
    · next heq => exact ⟨node, heq ▸ hn⟩
    · exact hs.sound.referenced i count hc
  · obtain ⟨i, hi, hr⟩ := hs.held d hd
    exact ⟨i, hi, mem_insert_eq.mpr (.inr hr)⟩

theorem Positive.retained (h : s.Positive) : (s.retained id).Positive := by
  intro i count hc
  rw [State.retained, get_insert] at hc
  split at hc
  · cases hc
    exact Nat.succ_pos _
  · exact h i count hc

/-- One reference less to a node. -/
def released (s : State) (id count : Nat) : State :=
  { s with
    fidReferences :=
      if count > 1 then s.fidReferences.insert id (count - 1) else s.fidReferences.erase id }

theorem getElem?_released : (s.released id count).fidReferences[n]? =
    if id = n then (if count > 1 then some (count - 1) else none) else s.fidReferences[n]? := by
  unfold released
  split
  · rw [get_insert]
  · rw [get_erase]

theorem references_released (h : s.fidReferences[id]? = some count) (hp : s.Positive) :
    (s.released id count).references n + (if id = n then 1 else 0) = s.references n := by
  have hps := hp id count h
  rw [references_eq, references_eq, getElem?_released]
  split
  · next heq =>
    rw [← heq, h, Option.getD_some]
    split
    · rw [Option.getD_some]
      omega
    · rw [Option.getD_none]
      omega
  · rfl

theorem Sound.released (hs : s.Sound) (h : s.fidReferences[id]? = some count) :
    (s.released id count).Sound := by
  refine hs.recount fun i count' hc => ?_
  have hsm : (s.released id count).fidReferences[i]? = some count' := hc
  rw [getElem?_released] at hsm
  split at hsm
  · next heq => exact hs.referenced i count (heq ▸ h)
  · exact hs.referenced i count' hsm

theorem Positive.released (hp : s.Positive) : (s.released id count).Positive := by
  intro i count' hc
  rw [getElem?_released] at hc
  split at hc
  · split at hc
    · cases hc
      omega
    · cases hc
  · exact hp i count' hc

/-- The tree stays as it is. -/
structure Still (s s' : State) : Prop where
  next : s'.nextId = s.nextId
  capacity : s'.logCapacity = s.logCapacity
  nodes : ∀ i : Nat, s'.Attached i → s.Attached i ∧ s'.nodes[i]? = s.nodes[i]?

theorem Still.refl (s : State) : s.Still s := ⟨rfl, rfl, fun _ hi => ⟨hi, rfl⟩⟩

theorem Still.trans {s'' : State} (h : s.Still s') (h' : s'.Still s'') : s.Still s'' := by
  refine ⟨h'.next.trans h.next, h'.capacity.trans h.capacity, fun i hi => ?_⟩
  obtain ⟨hi', hn'⟩ := h'.nodes i hi
  obtain ⟨hi'', hn⟩ := h.nodes i hi'
  exact ⟨hi'', hn'.trans hn⟩

/-- What a release leaves, once what nothing refers to is gone. -/
structure Released (s : State) (lost : Nat → Nat) (s' : State) : Prop where
  firm : s'.Firm
  positive : s'.Positive
  counts : ∀ n, s'.references n + lost n = s.references n
  passes : s.Passes [] s'
  settled : s.Settled s'
  still : s.Still s'
  registry : s'.registry = s.registry

theorem wp_releaseFidNode (hs : s.Firm) (hp : s.Positive) (h : 0 < s.references id) :
    wp (releaseFidNode id)
      (fun _ s' => s.Released (fun n => if id = n then 1 else 0) s') s := by
  rw [references_eq] at h
  cases hc : s.fidReferences[id]? with
  | none =>
    rw [hc] at h
    cases h
  | some count =>
    refine wp_ask_bind (fun e he => ?_) fun found hfn => ?_
    · rw [hc] at he
      cases he
    · rw [hc] at hfn
      cases hfn
      have hsn := hs.sound.released hc
      have hh := hsn.held_collect
      obtain ⟨f, hf, heq, hst⟩ := hsn.collect
      have hsm := hsn.fidReferences_keeping hf fun d hd h => (hst d hd).mpr h
      show s.Released _ (s.released id count).collectUnreferencedDetachedSubtrees
      rw [heq] at hh ⊢
      refine ⟨⟨hsn.keeping hf, hh⟩, fun i count' hc' => ?_, fun n => ?_,
        .of_none le_rfl (fun names i hi => hf.follow_keeping hi) fun i _ hi => ?_,
        fun p n c hln _ => (links_keeping_eq_some.mp hln).2,
        ⟨rfl, rfl, fun i hi => ?_⟩, rfl⟩
      · rw [hsm] at hc'
        exact hp.released i count' hc'
      · unfold references
        rw [hsm]
        exact references_released hc hp
      · have hnn : (s.released id count).nodes[i]? = none := hi
        rw [nodes_keeping, hnn, ite_self]
      · have ho : (s.released id count).Attached i := within_of_keeping hi
        refine ⟨ho, ?_⟩
        rw [nodes_keeping, hf.attached ho]
        rfl

end State

/-! ### Sections -/

/-- Whether a binding is to a node, as a number. -/
def FidBinding.isTo (n : Nat) (binding : FidBinding) : Nat := if binding.node = n then 1 else 0

/-- How many fids of a tree are bound to a node. -/
def boundIn (fids : ExtTreeMap Fid FidBinding) (n : Nat) : Nat :=
  sumEntries (FidBinding.isTo n) fids

namespace Locked

variable {α β : Type} {l l' l'' : Locked} {fid : Fid} {n : Nat}

/-- The tables are in order, and each fid of the tree is counted. -/
structure Sane (l : Locked) : Prop where
  firm : l.state.Firm
  positive : l.state.Positive
  covered : ∀ n, boundIn l.fids n ≤ l.state.references n

/-- The tables are in order, and the counts changed as the fids of the tree did. -/
structure Balanced (l : Locked) (gone : List Nat) (l' : Locked) : Prop where
  firm : l'.state.Firm
  positive : l'.state.Positive
  counts : ∀ n, l'.state.references n + boundIn l.fids n = l.state.references n + boundIn l'.fids n
  passes : l.state.Passes gone l'.state
  settled : l.state.Settled l'.state
  registry : l'.state.registry = l.state.registry

theorem Sane.balanced (h : l.Sane) : l.Balanced [] l :=
  ⟨h.firm, h.positive, fun _ => rfl, .refl l.state, fun _ _ _ hln _ => hln, rfl⟩

theorem Balanced.sane {gone : List Nat} (h : l.Balanced gone l') (hl : l.Sane) : l'.Sane := by
  refine ⟨h.firm, h.positive, fun n => ?_⟩
  have hc := h.counts n
  have hcv := hl.covered n
  omega

theorem Balanced.trans {gone : List Nat} (h : l.Balanced gone l') (h' : l'.Balanced [] l'') :
    l.Balanced gone l'' := by
  refine ⟨h'.firm, h'.positive, fun n => ?_, h.passes.trans h'.passes,
    h.settled.trans h'.settled h.passes.next, h'.registry.trans h.registry⟩
  have hf := h.counts n
  have hs := h'.counts n
  omega

/-- A section that takes no subtrees out but those that are given, and keeps the balance. -/
def Takes (gone : State → List Nat) (x : Checked Locked Error α) : Prop :=
  ∀ l : Locked, l.Sane → wp x (fun _ l' => l.Balanced (gone l.state) l') l

/-- A section that keeps the balance and takes nothing out. -/
abbrev Balances (x : Checked Locked Error α) : Prop := Takes (fun _ => []) x

theorem balances_pure (a : α) : Balances (pure a) := fun _ hl => hl.balanced

theorem balances_throw (e : Error) : Balances (throw e : Checked Locked Error α) :=
  fun _ hl => hl.balanced

theorem balances_ask (f : Locked → Result α) : Balances (.ask f) := fun _ hl => hl.balanced

theorem balances_refuseIf (condition : Bool) (e : Error) : Balances (.refuseIf condition e) := by
  intro l hl
  cases condition with
  | true | false => exact hl.balanced

theorem Takes.bind {gone : State → List Nat} {x : Checked Locked Error α}
    {f : α → Checked Locked Error β} (hx : Takes gone x) (hf : ∀ a, Balances (f a)) :
    Takes gone (x >>= f) := by
  intro l hl
  rw [wp_bind]
  refine (hx l hl).mono fun r l' h => ?_
  cases r with
  | error e => exact h
  | ok a => exact (hf a l' (h.sane hl)).mono fun _ _ => h.trans

theorem takes_onState {gone : State → List Nat} {x : Checked State Error α}
    (hx : State.Takes gone (fun _ => True) x) : Takes gone (onState x) := by
  intro l hl
  rw [onState, wp_zoom]
  refine (hx l.state hl.firm).mono fun r s' ⟨hu, hr⟩ => ?_
  refine ⟨hu.firm, fun i count hc => ?_, fun n => ?_, hu.passes,
    hu.settled trivial, hr⟩
  · rw [hu.references] at hc
    exact hl.positive i count hc
  · unfold references
    rw [hu.references]

/-- A fid is bound. -/
theorem boundIn_insert (fids : ExtTreeMap Fid FidBinding) (fid : Fid) (binding : FidBinding)
    (n : Nat) : boundIn (fids.insert fid binding) n + (fids[fid]?).elim 0 (FidBinding.isTo n) =
      boundIn fids n + binding.isTo n := by
  have ho : ∀ other : Fid, other ≠ fid → (fids.insert fid binding)[other]? = fids[other]? := by
    intro other hne
    rw [get_insert, if_neg hne.symm]
  refine (sumEntries_change ho).trans ?_
  rw [get_insert, if_pos rfl]
  rfl

/-- A fid that was bound is bound no more. -/
theorem boundIn_erase {fids : ExtTreeMap Fid FidBinding} {binding : FidBinding}
    (h : fids[fid]? = some binding) (n : Nat) :
    boundIn (fids.erase fid) n + binding.isTo n = boundIn fids n := by
  have ho : ∀ other : Fid, other ≠ fid → (fids.erase fid)[other]? = fids[other]? := by
    intro other hne
    rw [get_erase, if_neg hne.symm]
  have hch := sumEntries_change (f := FidBinding.isTo n) ho
  rwa [get_erase, if_pos rfl, h] at hch

theorem Sane.referred (hl : l.Sane) {binding : FidBinding} (h : l.fids[fid]? = some binding) :
    0 < l.state.references binding.node := by
  have hc := boundIn_erase h binding.node
  rw [FidBinding.isTo, if_pos rfl] at hc
  have hcv := hl.covered binding.node
  omega

theorem wp_bindFid (l : Locked) (fid : Fid) (binding : FidBinding) : wp
    (bindFid fid binding) (fun _ l' => (∃ node, l.state.nodes[binding.node]? = some node) ∧
      l'.fids = l.fids.insert fid binding ∨
        l.state.nodes[binding.node]? = none ∧ l'.fids = l.fids) l := by
  unfold bindFid
  rw [wp_bind, onState, wp_zoom]
  refine wp_ask_bind (fun e he => .inr ⟨?_, rfl⟩) fun node hnd => ?_
  · cases hnd : l.state.nodes[binding.node]? with
    | none => rfl
    | some node =>
      rw [State.node, hnd] at he
      cases he
  rw [wp_update]
  refine wp_ask_bind (fun _ h => by cases h) fun previous _ => ?_
  cases previous with
  | none | some previous => exact .inl ⟨⟨node, node_ok hnd⟩, rfl⟩

theorem balances_bindFid (fid : Fid) (binding : FidBinding) : Balances (bindFid fid binding) := by
  intro l hl
  unfold bindFid
  rw [wp_bind, onState, wp_zoom]
  refine wp_ask_bind (fun _ _ => hl.balanced) fun node hn => ?_
  rw [wp_update]
  have hf := hl.firm.retained (node_ok hn)
  have hp : (l.state.retained binding.node).Positive := hl.positive.retained
  have hps : l.state.Passes [] (l.state.retained binding.node) :=
    .of_none le_rfl (fun _ _ hi => hi) fun _ _ hnn => hnn
  have hs : l.state.Settled (l.state.retained binding.node) := fun _ _ _ hln _ => hln
  refine wp_ask_bind (fun _ h => nomatch h) fun previous hpr => ?_
  have hpr : l.fids[fid]? = previous := Except.ok.inj hpr
  rw [wp_bind, wp_update]
  cases previous with
  | none =>
    refine ⟨hf, hp, fun n => ?_, hps, hs, rfl⟩
    have hb := boundIn_insert l.fids fid binding n
    rw [hpr, Option.elim_none] at hb
    have hc := references_retained l.state binding.node n
    show (l.state.retained binding.node).references n + boundIn l.fids n =
      l.state.references n + boundIn (l.fids.insert fid binding) n
    unfold FidBinding.isTo at hb
    omega
  | some previous =>
    have hr : 0 < (l.state.retained binding.node).references previous.node := by
      rw [references_retained]
      have := hl.referred hpr
      omega
    show wp (onState (releaseFidNode previous.node)) _ _
    rw [onState, wp_zoom]
    refine (wp_releaseFidNode hf hp hr).mono fun _ s' h => ?_
    refine ⟨h.firm, h.positive, fun n => ?_, hps.trans h.passes,
      hs.trans h.settled hps.next, h.registry⟩
    have hb := boundIn_insert l.fids fid binding n
    rw [hpr, Option.elim_some] at hb
    have hc := references_retained l.state binding.node n
    have ha := h.counts n
    unfold FidBinding.isTo at hb
    show s'.references n + boundIn l.fids n =
      l.state.references n + boundIn (l.fids.insert fid binding) n
    omega

theorem balances_unbindFid (fid : Fid) : Balances (unbindFid fid) := by
  intro l hl
  refine wp_ask_bind (fun _ h => nomatch h) fun found hfn => ?_
  have hfn : l.fids[fid]? = found := Except.ok.inj hfn
  cases found with
  | none => exact hl.balanced
  | some binding =>
    rw [wp_bind, wp_update]
    rw [onState, wp_zoom]
    refine (wp_releaseFidNode hl.firm hl.positive (hl.referred hfn)).mono
      fun _ s' h => ⟨h.firm, h.positive, fun n => ?_, h.passes, h.settled, h.registry⟩
    have hb := boundIn_erase hfn n
    have ha := h.counts n
    unfold FidBinding.isTo at hb
    show s'.references n + boundIn l.fids n = l.state.references n + boundIn (l.fids.erase fid) n
    omega

/-- The loop over the fids of a tree that goes. -/
def releaseAll (bindings : List (Fid × FidBinding)) (s : State) : State :=
  bindings.foldl (fun state (_, binding) => ((releaseFidNode binding.node).exec state).2) s

theorem released_releaseAll (bindings : List (Fid × FidBinding)) : ∀ s : State, s.Firm →
    s.Positive → (∀ n, (bindings.map fun entry => entry.2.isTo n).sum ≤ s.references n) →
      s.Released (fun n => (bindings.map fun entry => entry.2.isTo n).sum)
        (releaseAll bindings s) := by
  induction bindings with
  | nil =>
    intro s hs hp _
    exact ⟨hs, hp, fun _ => rfl, .refl s, fun _ _ _ hln _ => hln, .refl s, rfl⟩
  | cons entry bindings ih =>
    intro s hs hp hcv
    simp only [List.map_cons, List.sum_cons] at hcv ⊢
    have hr : 0 < s.references entry.2.node := by
      have hm := hcv entry.2.node
      rw [FidBinding.isTo, if_pos rfl] at hm
      omega
    have hf := wp_releaseFidNode hs hp hr
    have hrs := ih _ hf.firm hf.positive fun n => by
      have ha := hcv n
      have hc := hf.counts n
      unfold FidBinding.isTo at ha ⊢
      omega
    refine ⟨hrs.firm, hrs.positive, fun n => ?_, hf.passes.trans hrs.passes,
      hf.settled.trans hrs.settled hf.passes.next, hf.still.trans hrs.still,
      hrs.registry.trans hf.registry⟩
    have hl := hrs.counts n
    have hc := hf.counts n
    show (releaseAll bindings ((releaseFidNode entry.2.node).exec s).2).references n + _ = _
    unfold FidBinding.isTo at hl ⊢
    omega

theorem balances_dropped : Balances dropped := by
  intro l hl
  have hs : ∀ n, (l.fids.toList.map fun entry => entry.2.isTo n).sum = boundIn l.fids n :=
    fun n => sumEntries_eq_sum.symm
  have h := released_releaseAll l.fids.toList l.state hl.firm hl.positive
    fun n => by rw [hs]; exact hl.covered n
  refine ⟨h.firm, h.positive, fun n => ?_, h.passes, h.settled, h.registry⟩
  have ha := h.counts n
  rw [hs] at ha
  exact ha

/-! ### The calls of a tree -/

theorem balances_binding (fid : Fid) : Balances (binding fid) := balances_ask _

theorem balances_attach (sessionId : Nat) (fid : Fid) (uname aname : Bytes) :
    Balances (attach sessionId fid uname aname) :=
  (balances_ask _).bind fun _ => (balances_ask _).bind fun _ => (balances_ask _).bind fun _ =>
    (balances_bindFid _ _).bind fun _ => balances_pure _

section
variable (fid : Fid)

theorem balances_createTarget (qid : Qid) (name : Bytes) : Balances (createTarget fid qid name) :=
  (balances_binding _).bind fun _ => (balances_ask _).bind fun _ =>
    (balances_refuseIf _ _).bind fun _ => (balances_ask _).bind fun _ =>
      (balances_refuseIf _ _).bind fun _ => (balances_refuseIf _ _).bind fun _ =>
        (balances_refuseIf _ _).bind fun _ => (balances_refuseIf _ _).bind fun _ =>
          (balances_ask _).bind fun _ => (balances_ask _).bind fun _ => balances_pure _

theorem balances_created (binding : FidBinding) (qidPath : UInt64) :
    Balances (created fid binding qidPath) :=
  (balances_ask _).bind fun _ => balances_bindFid _ _

theorem balances_removeTarget (qid : Qid) : Balances (removeTarget fid qid) :=
  (balances_binding _).bind fun _ => (balances_ask _).bind fun _ =>
    (balances_refuseIf _ _).bind fun _ => (balances_ask _).bind fun _ =>
      (balances_refuseIf _ _).bind fun _ => (balances_ask _).bind fun _ => balances_ask _

theorem takes_removed (path : Bytes) : Takes (removedBy path) (removed fid path) :=
  (takes_onState (takes_removeSubtreeIfExists path)).bind fun _ => balances_unbindFid fid

theorem balances_openFid (qid : Qid) (mode : UInt8) : Balances (openFid fid qid mode) :=
  (balances_binding _).bind fun _ => (balances_ask _).bind fun _ =>
    (balances_refuseIf _ _).bind fun _ => (balances_ask _).bind fun _ => balances_refuseIf _ _

theorem balances_write (requestId data : Bytes) : Balances (write fid requestId data) := by
  refine (balances_binding _).bind fun _ => (balances_ask _).bind fun _ => ?_
  refine (balances_ask _).bind fun _ => (balances_ask _).bind fun node => ?_
  split
  · exact balances_pure _
  · exact balances_pure _
  · exact balances_pure _
  · refine (balances_ask _).bind fun path => ?_
    refine (takes_onState (publishes_place _ rfl).keeps).bind fun _ => ?_
    exact (takes_onState (publishes_place _ rfl).keeps).bind fun _ => balances_pure _
  · exact balances_throw _

end

end Locked

theorem Walk.keeps_await (walk : Walk) (name : Bytes) (reply : Reply) :
    Keeps (walk.await name reply) := by
  have hp : ∀ call : Call, Keeps (pure call : Checked State Error Call) := fun call =>
    (publishes_pure call).keeps
  refine (publishes_ask _).keeps.bind fun detached => ?_
  refine (publishes_ask _).keeps.bind fun body => ?_
  split
  · exact hp _
  · split
    · split
      · exact hp _
      · exact hp _
      · exact hp _
      · next metadata read removal _ =>
        refine .bind ?_ fun result => ?_
        · exact (publishes_insertPushedChildDirectory walk.current name metadata read removal).keeps
        · cases result with
          | ok child | error e => exact hp _
    · exact hp _

/-! ### Worlds -/

/-- How many fids of the trees are bound to a node. -/
def boundOver (sessions : ExtTreeMap Nat Session) (n : Nat) : Nat :=
  sumEntries (fun session => boundIn session.fids n) sessions

namespace World

variable {w w' : World} {id n : Nat} {session : Session} {action : Action}

/-- The tables are in order, and each node is counted as often as fids are bound to it. -/
structure Ordered (w : World) : Prop where
  firm : w.state.Firm
  positive : w.state.Positive
  counted : ∀ n, w.state.references n = boundOver w.sessions n
  fresh : ∀ (id : Nat) (session : Session), w.sessions[id]? = some session → id < w.nextSession

/-- A session takes the place of another. -/
theorem boundOver_insert (sessions : ExtTreeMap Nat Session) (id : Nat) (after : Session)
    (n : Nat) : boundOver (sessions.insert id after) n +
      (sessions[id]?).elim 0 (fun session : Session => boundIn session.fids n) =
        boundOver sessions n + boundIn after.fids n := by
  have ho : ∀ other : Nat, other ≠ id → (sessions.insert id after)[other]? = sessions[other]? := by
    intro other hne
    rw [get_insert, if_neg hne.symm]
  refine (sumEntries_change ho).trans ?_
  rw [get_insert, if_pos rfl]
  rfl

theorem boundOver_erase {sessions : ExtTreeMap Nat Session} (h : sessions[id]? = some session)
    (n : Nat) : boundOver (sessions.erase id) n + boundIn session.fids n =
      boundOver sessions n := by
  have ho : ∀ other : Nat, other ≠ id → (sessions.erase id)[other]? = sessions[other]? := by
    intro other hne
    rw [get_erase, if_neg hne.symm]
  have hch := sumEntries_change (f := fun session : Session => boundIn session.fids n) ho
  rwa [get_erase, if_pos rfl, h] at hch

theorem Ordered.sane (hw : w.Ordered) (h : w.sessions[id]? = some session) :
    Locked.Sane ⟨w.state, session.fids⟩ := by
  refine ⟨hw.firm, hw.positive, fun n => ?_⟩
  have hc := boundOver_erase h n
  show boundIn session.fids n ≤ w.state.references n
  rw [hw.counted]
  omega

/-- What a step leaves that lets the registry be. -/
structure Follows (w : World) (gone : List Nat) (w' : World) : Prop where
  ordered : w'.Ordered
  passes : w.state.Passes gone w'.state
  settled : w.state.Settled w'.state
  registry : w'.state.registry = w.state.registry

section
variable (hw : w.Ordered) (h : w.sessions[id]? = some session)
include hw h

/-- A session whose fids stay goes on with its call. -/
theorem Ordered.goesOn (call : Call) :
    w.Follows [] { w with sessions := w.sessions.insert id { session with call := call } } := by
  refine ⟨⟨hw.firm, hw.positive, fun n => ?_, fun i found hfn => ?_⟩, .refl w.state,
    fun _ _ _ hln _ => hln, rfl⟩
  · have hc := boundOver_insert w.sessions id { session with call := call } n
    rw [h, Option.elim_some] at hc
    have ho := hw.counted n
    show w.state.references n = boundOver (w.sessions.insert id { session with call := call }) n
    dsimp only at hc
    omega
  · rw [get_insert] at hfn
    split at hfn
    · next heq => exact heq ▸ hw.fresh id session h
    · exact hw.fresh i found hfn

/-- A section of a call keeps order. -/
theorem Ordered.holding {α : Type} {x : Checked Locked Error α} {gone : State → List Nat}
    (hx : Locked.Takes gone x) (after : Result α → Call) :
    w.Follows (gone w.state) (w.holding id session x after) := by
  have hb := hx _ (hw.sane h)
  refine ⟨⟨hb.firm, hb.positive, fun n => ?_, fun i found hfn => ?_⟩,
    hb.passes, hb.settled, hb.registry⟩
  · have hc := boundOver_insert w.sessions id
      ⟨(x.exec ⟨w.state, session.fids⟩).2.fids, after (x.exec ⟨w.state, session.fids⟩).1⟩ n
    rw [h, Option.elim_some] at hc
    have ho := hw.counted n
    have hch := hb.counts n
    show (x.exec ⟨w.state, session.fids⟩).2.state.references n = boundOver (w.sessions.insert id _)
      n
    dsimp only at hc hch
    omega
  · rw [World.holding] at hfn
    dsimp only at hfn
    rw [get_insert] at hfn
    split at hfn
    · next heq => exact heq ▸ hw.fresh id session h
    · exact hw.fresh i found hfn

/-- A tree without fids goes. -/
theorem Ordered.closed (he : session.fids = ∅) :
    Ordered { w with sessions := w.sessions.erase id } := by
  refine ⟨hw.firm, hw.positive, fun n => ?_, fun i found hfn => ?_⟩
  · have hc := boundOver_erase h n
    rw [he] at hc
    exact (hw.counted n).trans hc.symm
  · rw [get_erase] at hfn
    split at hfn
    · cases hfn
    · exact hw.fresh i found hfn

end

theorem Ordered.advanced {reply : Reply} (hw : w.Ordered) (hs : w.sessions[id]? = some
    session) (h : w.advanced id session reply = some w') : w.Follows [] w' := by
  unfold World.advanced at h
  dsimp only at h
  split at h
  · next walk _ =>
    split at h
    · cases h
      exact hw.holding hs (Locked.balances_bindFid _ _) _
    · cases h
      exact hw.goesOn hs _
  · cases h
    exact hw.goesOn hs _
  · next walk name _ =>
    cases h
    exact hw.holding hs (Locked.takes_onState (walk.keeps_await name reply)) _
  · cases h
    exact hw.goesOn hs _
  · cases h

/-- The subtree that the end of a remove takes out. -/
def removesEnding (w : World) (session : Session) (qidPath : Option UInt64) : List Nat :=
  match session.call, qidPath with
  | .removing _ path, some _ => removedBy path w.state
  | _, _ => []

theorem Ordered.answered {qidPath : Option UInt64} (hw : w.Ordered)
    (hs : w.sessions[id]? = some session) (h : w.answered id session qidPath = some w') :
    w.Follows (w.removesEnding session qidPath) w' := by
  unfold World.answered at h
  unfold removesEnding
  split at h
  · next fid binding qidPath hc =>
    cases h
    rw [hc]
    exact hw.holding hs (Locked.balances_created fid binding qidPath) _
  · next fid path qidPath hc =>
    cases h
    rw [hc]
    exact hw.holding hs (Locked.takes_removed fid path) _
  · next hc =>
    cases h
    rw [hc]
    exact hw.goesOn hs _
  · next hc =>
    cases h
    rw [hc]
    exact hw.goesOn hs _
  · cases h

/-- The subtrees that an action takes out. -/
def removes (w : World) : Action → List Nat
  | .owner op => op.removes w.state
  | .answered id qidPath => (w.sessions[id]?).elim [] fun session => w.removesEnding session qidPath
  | _ => []

theorem begun_eq_some {f : Session → Option World} (h : w.begun id f = some w') :
    ∃ session, w.sessions[id]? = some session ∧ f session = some w' := by
  unfold begun at h
  split at h
  · next session hs =>
    split at h
    · exact ⟨session, hs, h⟩
    · cases h
  · cases h

section
variable (hw : w.Ordered)
include hw

/-- What an action of a tree leaves. The beginnings of calls find their session idle; what they
do is a section. -/
theorem Ordered.follows (ht : ∀ op, action ≠ .owner op) (h : w.next action = some w') :
    w.Follows (w.removes action) w' := by
  cases action with
  | owner op => exact absurd rfl (ht op)
  | tree =>
    cases h
    have hnn : w.sessions[w.nextSession]? = none := by
      cases hs : w.sessions[w.nextSession]? with
      | none => rfl
      | some session => exact absurd (hw.fresh _ session hs) (Nat.lt_irrefl _)
    refine ⟨⟨hw.firm, hw.positive, fun n => ?_, fun i found hfn => ?_⟩, .refl w.state,
    fun _ _ _ hln _ => hln, rfl⟩
    · have hc := boundOver_insert w.sessions w.nextSession ⟨∅, .idle⟩ n
      rw [hnn] at hc
      exact (hw.counted n).trans hc.symm
    · show i < w.nextSession + 1
      rw [get_insert] at hfn
      split at hfn
      · omega
      · exact Nat.lt_succ_of_lt (hw.fresh i found hfn)
  | drop id =>
    obtain ⟨session, hs, hf⟩ := begun_eq_some h
    cases hf
    have hh := hw.holding hs Locked.balances_dropped fun _ => .idle
    exact ⟨hh.ordered.closed ExtTreeMap.getElem?_insert_self rfl, hh.passes,
      hh.settled, hh.registry⟩
  | attach id fid uname aname =>
    obtain ⟨session, hs, hf⟩ := begun_eq_some h
    cases hf
    exact hw.holding hs (Locked.balances_attach id fid uname aname) _
  | walk id fid newfid names =>
    obtain ⟨session, hs, hf⟩ := begun_eq_some h
    split at hf
    · cases hf
      exact hw.goesOn hs _
    · cases hf
      exact ⟨hw, .refl w.state, fun _ _ _ hln _ => hln, rfl⟩
  | openFid id fid qid mode =>
    obtain ⟨session, hs, hf⟩ := begun_eq_some h
    cases hf
    exact hw.holding hs (Locked.balances_openFid fid qid mode) _
  | create id fid qid name =>
    obtain ⟨session, hs, hf⟩ := begun_eq_some h
    cases hf
    exact hw.holding hs (Locked.balances_createTarget fid qid name) _
  | write id fid requestId data =>
    obtain ⟨session, hs, hf⟩ := begun_eq_some h
    cases hf
    exact hw.holding hs (Locked.balances_write fid requestId data) _
  | clunk id fid =>
    obtain ⟨session, hs, hf⟩ := begun_eq_some h
    cases hf
    exact hw.holding hs (Locked.balances_unbindFid fid) _
  | remove id fid qid =>
    obtain ⟨session, hs, hf⟩ := begun_eq_some h
    cases hf
    exact hw.holding hs (Locked.balances_removeTarget fid qid) _
  | advance id reply =>
    obtain ⟨session, hs, hf⟩ := Option.bind_eq_some_iff.mp h
    exact hw.advanced hs hf
  | answered id qidPath =>
    obtain ⟨session, hs, hf⟩ := Option.bind_eq_some_iff.mp h
    show w.Follows ((w.sessions[id]?).elim [] fun session => w.removesEnding session qidPath) w'
    rw [hs]
    exact hw.answered hs hf

/-- An operation of the owner keeps order. -/
theorem Ordered.owner (op : OwnerOp) : Ordered { w with state := (op.run.exec w.state).2 } := by
  have hu := op.upheld hw.firm
  have hr := hu.references
  refine ⟨hu.firm, fun i count hc => ?_, fun n => ?_, hw.fresh⟩
  · rw [hr] at hc
    exact hw.positive i count hc
  · show (op.run.exec w.state).2.references n = _
    unfold references
    rw [hr]
    exact hw.counted n

section
variable (h : w.next action = some w')
include h

theorem Ordered.next : w'.Ordered := by
  by_cases ht : ∀ op, action ≠ .owner op
  · exact (hw.follows ht h).ordered
  · obtain ⟨op, hop⟩ := not_forall.mp ht
    cases not_not.mp hop
    cases h
    exact hw.owner op

theorem Ordered.passes : w.state.Passes (w.removes action) w'.state := by
  by_cases ht : ∀ op, action ≠ .owner op
  · exact (hw.follows ht h).passes
  · obtain ⟨op, hop⟩ := not_forall.mp ht
    cases not_not.mp hop
    cases h
    exact (op.upheld hw.firm).passes

/-- No node that was there gets a new place, unless the owner pushes one back. -/
theorem Ordered.settled (hc : ∀ op, action = .owner op → op.Calm w.state) :
    w.state.Settled w'.state := by
  by_cases ht : ∀ op, action ≠ .owner op
  · exact (hw.follows ht h).settled
  · obtain ⟨op, hop⟩ := not_forall.mp ht
    cases not_not.mp hop
    cases h
    exact (op.upheld hw.firm).settled (hc op rfl)

end

end

end World

/-! ### Chains of parents -/

namespace State

variable {s : State} {id top : Nat} {chain other : List Nat} {node : Node}

/-- The nodes above a node, up to the root or to the top of a subtree that was taken out. -/
inductive ParentChain (s : State) : Nat → List Nat → Prop
  | top {id : Nat} (isTop : s.IsTop id) : ParentChain s id [id]
  | up {id : Nat} {node : Node} {above : List Nat} (found : s.nodes[id]? = some node)
      (notTop : ¬ s.IsTop id) (chain : ParentChain s node.parent above) :
      ParentChain s id (id :: above)

theorem ParentChain.unique (h : s.ParentChain id chain) (h' : s.ParentChain id other) :
    other = chain := by
  induction h generalizing other with
  | top ht =>
    cases h' with
    | top _ => rfl
    | up _ hnt _ => exact absurd ht hnt
  | @up id node above hn hnt _ ih =>
    cases h' with
    | top ht => exact absurd ht hnt
    | up hn' _ ha =>
      cases hn.symm.trans hn'
      rw [ih ha]

/-- All on the chain are above the node. -/
theorem ParentChain.within (hs : s.Sound) (h : s.ParentChain id chain) :
    ∀ i ∈ chain, s.links.Within i id := by
  induction h with
  | @top id _ =>
    intro i hi
    cases List.mem_singleton.mp hi
    exact .refl s.links id
  | @up id node above hn hnt _ ih =>
    intro i hi
    rcases List.mem_cons.mp hi with rfl | hi
    · exact .refl s.links i
    · exact (ih i hi).child (hs.linked hn hnt)

theorem ParentChain.nodup (hs : s.Sound) (h : s.ParentChain id chain) : chain.Nodup := by
  induction h with
  | top _ => exact List.nodup_singleton _
  | @up id node above hn hnt ha ih =>
    refine List.nodup_cons.mpr ⟨fun hm => ?_, ih⟩
    -- A node on the chain above itself would be below its own child.
    have hln := hs.linked hn hnt
    obtain ⟨top, ht, hwt⟩ := hs.covered id node hn
    have hpr : s.links.Within top node.parent := by
      rcases hwt.last with rfl | ⟨p, n, hp, hln'⟩
      · exact absurd ht hnt
      · obtain ⟨rfl, _⟩ := hs.single _ _ p n id hln hln'
        exact hp
    exact hs.single.not_within_child (hs.top_of_isTop ht) hpr hln
      (ha.within hs id hm)

theorem Sound.exists_chain (hs : s.Sound) (hn : s.nodes[id]? = some node) :
    ∃ chain, s.ParentChain id chain := by
  obtain ⟨top, ht, hwt⟩ := hs.covered id node hn
  refine hwt.rec_on (P := fun id => ∃ chain, s.ParentChain id chain) ⟨[top], .top ht⟩ ?_
  rintro p n c _ ⟨chain, hc⟩ hln
  obtain ⟨hnt, child, hch, rfl, _⟩ := hs.listed p n c hln
  exact ⟨c :: chain, .up hch hnt hc⟩

end State

/-! ### Well-formedness -/

/-- What holds of the state of a front, and of the fids of its trees. -/
structure World.WellFormed (w : World) : Prop where
  indexed : ∀ (q : UInt64) (id : Nat), w.state.qidIndex[q]? = some id ↔
    ∃ node, w.state.nodes[id]? = some node ∧ node.qidPath = q
  entries : ∀ (id : Nat) (directory : Node) (name : Bytes) (child : Nat),
    w.state.nodes[id]? = some directory → directory.body.children[name]? = some child →
      ∃ node, w.state.nodes[child]? = some node ∧ node.parent = id ∧ node.name = name
  listed : ∀ (id : Nat) (node : Node), w.state.nodes[id]? = some node → id ≠ ROOT_ID →
    id ∉ w.state.detachedRoots → ∃ directory, w.state.nodes[node.parent]? = some directory ∧
      directory.body.children[node.name]? = some id
  chained : ∀ (id : Nat) (node : Node), w.state.nodes[id]? = some node →
    ∃ chain, w.state.ParentChain id chain ∧ chain.Nodup ∧
      ∀ other, w.state.ParentChain id other → other = chain
  counted : ∀ id, w.state.fidReferences.getD id 0 = boundOver w.sessions id
  existing : ∀ (id count : Nat), w.state.fidReferences[id]? = some count →
    ∃ node, w.state.nodes[id]? = some node
  held : ∀ d ∈ w.state.detachedRoots, ∃ id, w.state.links.Within d id ∧
    id ∈ w.state.fidReferences
  reached : ∀ (id : Nat) (node : Node), w.state.nodes[id]? = some node →
    w.state.Attached id ∨ ∃ d ∈ w.state.detachedRoots, w.state.links.Within d id

theorem World.Ordered.wellFormed {w : World} (hw : w.Ordered) : w.WellFormed where
  indexed := hw.firm.sound.indexed
  entries id directory name child hdr hch :=
    (hw.firm.sound.listed id name child ((links_of_node hdr).trans hch)).2
  listed id node hn hr hdt :=
    links_eq_some.mp (hw.firm.sound.linked hn fun ht => ht.elim hr hdt)
  chained id node hn := by
    obtain ⟨chain, hc⟩ := hw.firm.sound.exists_chain hn
    exact ⟨chain, hc, hc.nodup hw.firm.sound, fun _ => hc.unique⟩
  counted := hw.counted
  existing := hw.firm.sound.referenced
  held := hw.firm.held
  reached id node hn := by
    obtain ⟨top, ht, hwt⟩ := hw.firm.sound.covered id node hn
    rcases ht with rfl | hd
    · exact .inl hwt
    · exact .inr ⟨top, hd, hwt⟩

theorem State.nodes_new (i : Nat) : State.new.nodes[i]? =
    if ROOT_ID = i then some (.placed (utf8 "/") ROOT_ID 0 (.dir .default)) else none := by
  unfold State.new
  dsimp only
  rw [get_insert, ExtTreeMap.getElem?_empty]

theorem State.sound_new : State.new.Sound := by
  have hl : ∀ p n, State.new.links p n = none := by
    intro p n
    unfold State.links
    rw [State.nodes_new]
    split
    · exact ExtTreeMap.getElem?_empty
    · rfl
  have ho : ∀ (i : Nat) (node : Node), State.new.nodes[i]? = some node →
      i = ROOT_ID ∧ node = .placed (utf8 "/") ROOT_ID 0 (.dir .default) := by
    intro i node hn
    rw [State.nodes_new] at hn
    split at hn
    · next heq =>
      cases hn
      exact ⟨heq.symm, rfl⟩
    · cases hn
  constructor
  · exact ⟨_, (State.nodes_new ROOT_ID).trans (if_pos rfl), rfl, rfl⟩
  · exact ExtTreeSet.not_mem_empty
  · intro i node hn
    obtain ⟨rfl, rfl⟩ := ho i node hn
    exact ⟨Nat.one_pos, Nat.one_pos⟩
  · intro q i
    show ((∅ : ExtTreeMap UInt64 Nat).insert 0 ROOT_ID)[q]? = some i ↔ _
    rw [get_insert, ExtTreeMap.getElem?_empty]
    constructor
    · intro h
      split at h
      · next heq =>
        cases h
        exact ⟨_, (State.nodes_new ROOT_ID).trans (if_pos rfl), heq⟩
      · cases h
    · rintro ⟨node, hn, hq⟩
      obtain ⟨rfl, rfl⟩ := ho i node hn
      exact if_pos hq
  · intro p n c h
    rw [hl] at h
    cases h
  · intro d hd
    exact absurd hd ExtTreeSet.not_mem_empty
  · intro i node hn
    obtain ⟨rfl, _⟩ := ho i node hn
    exact ⟨ROOT_ID, .inl rfl, Links.Within.refl _ ROOT_ID⟩
  · intro i count h
    have hnn : State.new.fidReferences[i]? = none := ExtTreeMap.getElem?_empty
    rw [hnn] at h
    cases h

theorem World.ordered_new : World.new.Ordered := by
  refine ⟨⟨State.sound_new, fun d hd => absurd hd ExtTreeSet.not_mem_empty⟩,
    fun i count h => ?_, fun _ => rfl, fun i session h => ?_⟩
  · cases h
  · cases h

theorem World.ordered_of_run {history : List Action} {w : World}
    (run : fronting.Run history w) : w.Ordered := by
  refine run.invariant (I := fun _ w => w.Ordered) ?_ ?_
  · rintro w rfl
    exact World.ordered_new
  · intro _ w action w' _ hw hs
    exact hw.next hs

/-- Every state that a front with its owner and its trees reaches is well formed. -/
theorem front_wellFormed {history : List Action} {w : World} (run : fronting.Run history w) :
    w.WellFormed := (World.ordered_of_run run).wellFormed

/-- A client holds a file while the owner takes its directory out. -/
def heldFile : List Action :=
  [.owner (.set (utf8 "a/b") (utf8 "x")), .tree, .attach 1 1 (utf8 "u") [],
    .walk 1 1 2 [utf8 "a", utf8 "b"], .advance 1 .pending, .advance 1 .pending,
    .advance 1 .pending, .advance 1 .pending, .advance 1 .pending,
    .owner (.removeSubtreeIfExists (utf8 "a"))]

theorem front_wellFormed_heldFile : ∃ w, fronting.Run heldFile.reverse w ∧ w.WellFormed ∧
    w.state.detachedRoots.toList = [1] ∧ w.state.fidReferences.toList = [(0, 1), (2, 1)] := by
  have hv : ((heldFile.foldlM World.next World.new).map fun w =>
      (w.state.detachedRoots.toList, w.state.fidReferences.toList)) =
        some ([1], [(0, 1), (2, 1)]) := by decide +kernel
  obtain ⟨w, hr, hv⟩ := System.Run.of_view (M := fronting) rfl (fun _ _ _ _ h => h) hv
  exact ⟨w, hr, front_wellFormed hr, Prod.mk.inj hv⟩

/-- The id of a node is not used again. Whatever the owner and the trees do after the node is gone,
no other node gets its id, so that a fid never comes to stand for another file. -/
theorem ids_not_reused {history later : List Action} {w w' : World} {id : Nat}
    (run : fronting.Run history w) (since : (fronting.startingAt w).Run later w')
    (used : id < w.state.nextId) (gone : w.state.nodes[id]? = none) :
    w'.state.nodes[id]? = none := by
  refine (since.invariant (I := fun _ w => w.Ordered ∧ id < w.state.nextId ∧
    w.state.nodes[id]? = none) ?_ ?_).2.2
  · rintro w rfl
    exact ⟨World.ordered_of_run run, used, gone⟩
  · rintro _ w action w' _ ⟨hw, hid, hg⟩ hs
    have hp := hw.passes hs
    exact ⟨hw.next hs, hid.trans_le hp.next, hp.missing id hid hg⟩

/-- The owner takes a file out and sets it again. -/
theorem ids_not_reused_file : ∃ w w', fronting.Run [.owner (.removeSubtreeIfExists (utf8 "f")),
    .owner (.set (utf8 "f") [])] w ∧ w.next (.owner (.set (utf8 "f") [])) = some w' ∧
      w'.state.nodes[1]? = none := by
  have hv : ([.owner (.set (utf8 "f") []), .owner (.removeSubtreeIfExists (utf8 "f"))].foldlM
      World.next World.new).map (fun w => decide (1 < w.state.nextId ∧ w.state.nodes[1]? = none)) =
        some true := by decide +kernel
  obtain ⟨w, hr, hv⟩ := System.Run.of_view (M := fronting) rfl (fun _ _ _ _ h => h) hv
  obtain ⟨hu, hg⟩ := of_decide_eq_true hv
  have hs : w.next (.owner (.set (utf8 "f") [])) = some _ := rfl
  exact ⟨w, _, hr, hs, ids_not_reused hr (.next (.start rfl) hs) hu hg⟩

end R9P.Front
