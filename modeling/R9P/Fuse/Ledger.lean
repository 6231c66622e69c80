import R9P.Fuse.Renaming
import R9P.Fuse.Requests

/-!
# What the kernel has been told

Library `Fuse`. The kernel counts the entries that it is told of each node and forgets some of
them; of every entry it is told the node, the generation and the inode. The ledger keeps both. A
table matches the ledger if no node is dropped that the kernel still counts, and if a generation
ends whenever the inode of a node changes. Numbers that have reached the end of 64 bits are left
out: there the table's own counters stand still.
-/

namespace R9P.Fuse
open Std Base Base.Checked Wire
open ExtTreeMap (getElem?_filter' getElem?_insert_self)

abbrev U64_MAX : Nat := 2 ^ 64 - 1

/-- An entry that the kernel has been told. -/
structure Report where
  nodeid : Nat
  generation : Nat
  identity : UInt64 × Kind
  deriving DecidableEq

/-- The entries told and forgotten, for each node, and all that was reported. -/
structure Ledger where
  entries : Nat → Nat
  forgotten : Nat → Nat
  reports : List Report

/-- What the last stat of a node shows. -/
def Node.identity (self : Node) : UInt64 × Kind := inodeIdentity self.stat

/-- The lookups that a node has left. -/
def NodeTable.lookups (self : NodeTable) (nodeid : Nat) : Nat :=
  ((self.nodes[nodeid]?).map (·.lookups)).getD 0

/-- A report is out of date, or it is what the node is like now. -/
def Report.Fits (self : Report) (node : Node) : Prop :=
  self.generation < node.generation ∨
    self.generation = node.generation ∧ self.identity = node.identity

structure Matches (l : Ledger) (t : NodeTable) : Prop where
  numbered : ∀ (nodeid : Nat) (node : Node), t.nodes[nodeid]? = some node →
    nodeid < t.nextNodeid ∨ U64_MAX ≤ nodeid
  stated : ∀ (nodeid : Nat) (node : Node), t.nodes[nodeid]? = some node →
    node.qid = node.stat.qid
  counted : ∀ nodeid < U64_MAX, l.entries nodeid ≤ U64_MAX →
    l.entries nodeid ≤ t.lookups nodeid + l.forgotten nodeid
  reported : ∀ r ∈ l.reports, r.nodeid < U64_MAX → r.generation < U64_MAX →
    r.nodeid < t.nextNodeid ∧
      ∀ (node : Node), t.nodes[r.nodeid]? = some node → r.Fits node
  single : ∀ r ∈ l.reports, ∀ r' ∈ l.reports, r.nodeid = r'.nodeid →
    r.generation = r'.generation → r.nodeid < U64_MAX → r.generation < U64_MAX →
    r.identity = r'.identity

/-! ### Nodes -/

/-- A generation ends when a node shows another inode. -/
def Node.Ages (n n' : Node) : Prop :=
  n.generation < n'.generation ∨ U64_MAX ≤ n'.generation ∨
    n.generation = n'.generation ∧ n.identity = n'.identity

/-- What may become of a node, which keeps its lookups. -/
structure Node.Turns (n n' : Node) : Prop where
  stated : n.qid = n.stat.qid → n'.qid = n'.stat.qid
  lookups : min n.lookups U64_MAX ≤ n'.lookups
  ages : n.qid = n.stat.qid → n.Ages n'

theorem lt_or_saturated (n : Nat) : n < saturatingSucc n ∨ U64_MAX ≤ saturatingSucc n := by
  unfold saturatingSucc U64_MAX
  omega

variable {n n' : Node}

/-- A change to what neither the kernel nor the server sees. -/
theorem Node.Turns.of_same (hq : n'.qid = n.qid) (hst : n'.stat = n.stat)
    (hl : n'.lookups = n.lookups) (hg : n'.generation = n.generation) :
    n.Turns n' where
  stated h := by rw [hq, hst, h]
  lookups := by
    rw [hl]
    exact Nat.min_le_left _ _
  ages _ := .inr (.inr ⟨hg.symm, by rw [identity, identity, hst]⟩)

variable {stat : Stat}

/-- A new stat of the same inode. -/
theorem Node.Turns.of_observe (hq : n'.qid = stat.qid)
    (hst : n'.stat = stat) (hl : n'.lookups = n.lookups)
    (hg : n'.generation = n.generation) (hs : inodeIdentity stat = n.identity) :
    n.Turns n' where
  stated _ := by rw [hq, hst]
  lookups := by
    rw [hl]
    exact Nat.min_le_left _ _
  ages _ := .inr (.inr ⟨hg.symm, by rw [← hs, identity, hst]⟩)

/-- A new stat in any case, with a new generation if it is of another inode. -/
theorem Node.Turns.of_renew (hq : n'.qid = stat.qid)
    (hst : n'.stat = stat) (hl : min n.lookups U64_MAX ≤ n'.lookups)
    (hg : n'.generation = (n.renew stat).generation) : n.Turns n' where
  stated _ := by rw [hq, hst]
  lookups := hl
  ages hsd := by
    have hr : n'.generation =
        if n.sameInodeIdentity stat then n.generation else saturatingSucc n.generation :=
      hg
    by_cases hs : n.sameInodeIdentity stat = true
    · obtain ⟨hi, hk⟩ := of_decide_eq_true hs
      refine .inr (.inr ⟨by rw [hr, if_pos hs], ?_⟩)
      rw [identity, identity, hst, inodeIdentity, inodeIdentity, ← hsd, hi, hk]
    · unfold Ages
      rw [hr, if_neg hs]
      exact (lt_or_saturated n.generation).imp_right .inl

theorem Node.Turns.refl (n : Node) : n.Turns n := of_same rfl rfl rfl rfl

/-- What was reported of a node fits what became of it. -/
theorem Report.Fits.ages {r : Report} (h : r.Fits n) (ha : n.Ages n')
    (hg : r.generation < U64_MAX) : r.Fits n' := by
  rcases ha with hl | hls | ⟨hs, hi⟩
  · rcases h with h | ⟨h, _⟩
    · exact .inl (h.trans hl)
    · exact .inl (h ▸ hl)
  · exact .inl (hg.trans_le hls)
  · rcases h with h | ⟨h, hr⟩
    · exact .inl (hs ▸ h)
    · exact .inr ⟨h.trans hs, hr.trans hi⟩

/-! ### Tables -/

variable {l : Ledger} {t t' : NodeTable}

variable {nodeid : Nat}

theorem lookups_of_none (h : t.nodes[nodeid]? = none) : t.lookups nodeid = 0 := by
  rw [NodeTable.lookups, h]
  rfl

variable {node : Node}

theorem lookups_of_some (h : t.nodes[nodeid]? = some node) : t.lookups nodeid = node.lookups := by
  rw [NodeTable.lookups, h]
  rfl

/-- Nodes age, new nodes come, and what the kernel counts is still there. -/
theorem Matches.changed (h : Matches l t) (hnx : min t.nextNodeid U64_MAX ≤ t'.nextNodeid)
    (hnm : ∀ (nodeid : Nat) (node : Node), t'.nodes[nodeid]? = some node →
      nodeid < t'.nextNodeid ∨ U64_MAX ≤ nodeid)
    (hsd : ∀ (nodeid : Nat) (node : Node), t'.nodes[nodeid]? = some node → node.qid = node.stat.qid)
    (hc : ∀ nodeid < t.nextNodeid, nodeid < U64_MAX → l.entries nodeid ≤ U64_MAX →
      l.entries nodeid ≤ t'.lookups nodeid + l.forgotten nodeid)
    (ha : ∀ nodeid < t.nextNodeid, nodeid < U64_MAX → ∀ (node' : Node),
      t'.nodes[nodeid]? = some node' → ∃ node, t.nodes[nodeid]? = some node ∧ node.Ages node') :
    Matches l t' where
  numbered := hnm
  stated := hsd
  counted nodeid hid he := by
    by_cases hk : nodeid < t.nextNodeid
    · exact hc nodeid hk hid he
    · have hb := h.counted nodeid hid he
      cases hn : t.nodes[nodeid]? with
      | none =>
        rw [lookups_of_none hn] at hb
        omega
      | some node =>
        have := h.numbered nodeid node hn
        omega
  reported r hr hid hg := by
    obtain ⟨hk, hf⟩ := h.reported r hr hid hg
    refine ⟨by omega, fun node' hn' => ?_⟩
    obtain ⟨node, hn, ht⟩ := ha r.nodeid hk hid node' hn'
    exact (hf node hn).ages ht hg
  single := h.single

/-- The lookups of a node that turns. -/
theorem Matches.counted_of_rel (h : Matches l t)
    (hr : Option.Rel Node.Turns t.nodes[nodeid]? t'.nodes[nodeid]?) (hid : nodeid < U64_MAX)
    (he : l.entries nodeid ≤ U64_MAX) :
    l.entries nodeid ≤ t'.lookups nodeid + l.forgotten nodeid := by
  have hb := h.counted nodeid hid he
  cases hn : t.nodes[nodeid]? with
  | none =>
    rw [lookups_of_none hn] at hb
    omega
  | some node =>
    rw [hn] at hr
    cases hn' : t'.nodes[nodeid]? with
    | none =>
      rw [hn'] at hr
      cases hr
    | some node' =>
      rw [hn'] at hr
      cases hr with
      | some ht =>
        have hl := ht.lookups
        rw [lookups_of_some hn] at hb
        rw [lookups_of_some hn']
        omega

/-- Nodes turn. -/
theorem Matches.turned (h : Matches l t) (hnx : t'.nextNodeid = t.nextNodeid)
    (hnd : ∀ nodeid : Nat, Option.Rel Node.Turns t.nodes[nodeid]? t'.nodes[nodeid]?) :
    Matches l t' := by
  have hb : ∀ (nodeid : Nat) (node' : Node), t'.nodes[nodeid]? = some node' →
      ∃ node, t.nodes[nodeid]? = some node ∧ node.Turns node' := by
    intro nodeid node' hn'
    have hr := hnd nodeid
    rw [hn'] at hr
    cases hn : t.nodes[nodeid]? with
    | none =>
      rw [hn] at hr
      cases hr
    | some node =>
      rw [hn] at hr
      cases hr with
      | some ht => exact ⟨node, rfl, ht⟩
  refine h.changed (by omega) (fun nodeid node' hn' => ?_) (fun nodeid node' hn' => ?_)
    (fun nodeid _ => h.counted_of_rel (hnd nodeid)) fun nodeid _ _ node' hn' => ?_
  · obtain ⟨node, hn, _⟩ := hb nodeid node' hn'
    rw [hnx]
    exact h.numbered nodeid node hn
  · obtain ⟨node, hn, ht⟩ := hb nodeid node' hn'
    exact ht.stated (h.stated nodeid node hn)
  · obtain ⟨node, hn, ht⟩ := hb nodeid node' hn'
    exact ⟨node, hn, ht.ages (h.stated nodeid node hn)⟩

theorem rel_turns_refl (node : Option Node) : Option.Rel Node.Turns node node := by
  cases node with
  | none => exact .none
  | some node => exact .some (.refl node)

section
variable (h : Matches l t)
include h

/-- One node turns. -/
theorem Matches.update {node' : Node} (hn : t.nodes[nodeid]? = some node) (ht : node.Turns node') :
    Matches l { t with nodes := t.nodes.insert nodeid node' } := by
  refine h.turned rfl fun other => ?_
  rw [get_insert]
  by_cases heq : nodeid = other
  · rw [if_pos heq, ← heq, hn]
    exact .some ht
  · rw [if_neg heq]
    exact rel_turns_refl _

/-- All nodes turn. -/
theorem Matches.mapped {f : Nat → Node → Node}
    (ht : ∀ (nodeid : Nat) (node : Node), node.Turns (f nodeid node)) :
    Matches l { t with nodes := t.nodes.map f } := by
  refine h.turned rfl fun nodeid => ?_
  rw [ExtTreeMap.getElem?_map]
  cases t.nodes[nodeid]? with
  | none => exact .none
  | some node => exact .some (ht nodeid node)

/-- Only nodes matter. -/
theorem Matches.congr (hnd : t'.nodes = t.nodes) (hnx : t'.nextNodeid = t.nextNodeid) :
    Matches l t' := by
  refine h.turned hnx fun nodeid => ?_
  rw [hnd]
  exact rel_turns_refl _

/-- The order of the reports does not matter. -/
theorem Matches.reorder {l' : Ledger} (he : l'.entries = l.entries)
    (hf : l'.forgotten = l.forgotten) (hrp : ∀ r ∈ l'.reports, r ∈ l.reports) : Matches l' t where
  numbered := h.numbered
  stated := h.stated
  counted := by
    rw [he, hf]
    exact h.counted
  reported r hr := h.reported r (hrp r hr)
  single r hr r' hr' := h.single r (hrp r hr) r' (hrp r' hr')

end

/-! ### Entries -/

/-- Something is reported without an entry that counts. -/
def Ledger.report (l : Ledger) (r : Report) : Ledger := { l with reports := r :: l.reports }

/-- An entry is told. -/
def Ledger.tell (l : Ledger) (r : Report) : Ledger :=
  { l.report r with
    entries := fun nodeid => if nodeid = r.nodeid then l.entries nodeid + 1 else l.entries nodeid }

/-- What the report of a node shows. -/
def Node.report (self : Node) (nodeid : Nat) : Report := ⟨nodeid, self.generation, self.identity⟩

section
variable (h : Matches l t) (hn : t.nodes[nodeid]? = some node)
include h hn

/-- What a node is like now may be reported. -/
theorem Matches.report : Matches (l.report (node.report nodeid)) t where
  numbered := h.numbered
  stated := h.stated
  counted := h.counted
  reported r hr hid hg := by
    rcases List.mem_cons.mp hr with rfl | hr
    · refine ⟨(h.numbered nodeid node hn).resolve_right (Nat.not_le.mpr hid), ?_⟩
      intro node' hn'
      cases hn.symm.trans hn'
      exact .inr ⟨rfl, rfl⟩
    · exact h.reported r hr hid hg
  single r hr r' hr' hs hs' hid hg := by
    have ho : ∀ r ∈ l.reports, r.nodeid = nodeid → r.generation = node.generation →
        nodeid < U64_MAX → node.generation < U64_MAX → r.identity = node.identity := by
      intro r hr hnd hgn hid hlt
      have hf := (h.reported r hr (hnd ▸ hid) (hgn ▸ hlt)).2
      rw [hnd] at hf
      rcases hf node hn with hl | ⟨_, hi⟩
      · omega
      · exact hi
    rcases List.mem_cons.mp hr with rfl | hr <;> rcases List.mem_cons.mp hr' with rfl | hr'
    · rfl
    · exact (ho r' hr' hs.symm hs'.symm hid hg).symm
    · rw [hs] at hid
      rw [hs'] at hg
      exact ho r hr hs hs' hid hg
    · exact h.single r hr r' hr' hs hs' hid hg

/-- An entry of a node whose lookups have gone up may be told. -/
theorem Matches.tell (hl : nodeid < U64_MAX → l.entries nodeid + 1 ≤ U64_MAX →
      l.entries nodeid + 1 ≤ node.lookups + l.forgotten nodeid) :
    Matches (l.tell (node.report nodeid)) t where
  numbered := h.numbered
  stated := h.stated
  counted other hid he := by
    have hc : (l.tell (node.report nodeid)).entries other =
        if other = nodeid then l.entries other + 1 else l.entries other := rfl
    rw [hc] at he ⊢
    by_cases heq : other = nodeid
    · subst heq
      rw [if_pos rfl] at he ⊢
      rw [lookups_of_some hn]
      exact hl hid he
    · rw [if_neg heq] at he ⊢
      exact h.counted other hid he
  reported := (h.report hn).reported
  single := (h.report hn).single

end

theorem NodeTable.getElem?_of_node (h : t.node nodeid = .ok node) :
    t.nodes[nodeid]? = some node := by
  unfold NodeTable.node at h
  split at h
  · next hf =>
    cases h
    exact hf
  · cases h

/-- A node that is looked up once more; `node.rs:126`. -/
def Node.lookedUp (self : Node) (fid : Option Fid) (stat : Stat) : Node :=
  { self.renew stat with fid := fid, lookups := saturatingSucc self.lookups }

variable {fid : Option Fid}

theorem Matches.lookedUp (h : Matches l t) (hn : t.nodes[nodeid]? = some node) :
    Matches l { t with nodes := t.nodes.insert nodeid (node.lookedUp fid stat) } ∧
      Matches (l.tell ((node.lookedUp fid stat).report nodeid))
        { t with nodes := t.nodes.insert nodeid (node.lookedUp fid stat) } := by
  have hl : min node.lookups U64_MAX ≤ saturatingSucc node.lookups := by
    unfold saturatingSucc U64_MAX
    omega
  have ht : node.Turns (node.lookedUp fid stat) := .of_renew rfl rfl hl rfl
  refine ⟨h.update hn ht, (h.update hn ht).tell getElem?_insert_self fun hid he => ?_⟩
  have hc := h.counted nodeid hid (by omega)
  rw [lookups_of_some hn] at hc
  show _ ≤ saturatingSucc node.lookups + _
  unfold saturatingSucc
  unfold U64_MAX at he
  omega

/-- A node that is looked up for the first time; `node.rs:152`. -/
theorem Matches.added {path : Path} (h : Matches l t) : Matches l { t with
      nodes := t.nodes.insert t.nextNodeid (.fresh fid path stat)
      nextNodeid := saturatingSucc t.nextNodeid } := by
  have ho : ∀ nodeid < t.nextNodeid,
      (t.nodes.insert t.nextNodeid (.fresh fid path stat))[nodeid]? = t.nodes[nodeid]? :=
    fun nodeid hlt => NodeTable.getElem?_insert_of_ne (Nat.ne_of_gt hlt)
  refine h.changed ?_ (fun nodeid node hn => ?_) (fun nodeid node hn => ?_)
    (fun nodeid hk hid he => ?_) fun nodeid hk hid node hn => ?_
  · show min t.nextNodeid U64_MAX ≤ saturatingSucc t.nextNodeid
    unfold saturatingSucc U64_MAX
    omega
  · show nodeid < saturatingSucc t.nextNodeid ∨ U64_MAX ≤ nodeid
    unfold saturatingSucc U64_MAX
    by_cases heq : t.nextNodeid = nodeid
    · omega
    · have := h.numbered nodeid node ((NodeTable.getElem?_insert_of_ne heq).symm.trans hn)
      unfold U64_MAX at this
      omega
  · by_cases heq : t.nextNodeid = nodeid
    · subst heq
      cases getElem?_insert_self.symm.trans hn
      rfl
    · exact h.stated nodeid node ((NodeTable.getElem?_insert_of_ne heq).symm.trans hn)
  · refine h.counted_of_rel ?_ hid he
    rw [ho nodeid hk]
    exact rel_turns_refl _
  · exact ⟨node, (ho nodeid hk).symm.trans hn, .inr (.inr ⟨rfl, rfl⟩)⟩

/-- A lookup inserts a node or counts one more lookup, and its entry may be told. -/
theorem Matches.insertNode {parent : Nat} {name : Bytes} {inserted : InsertedNode} (h : Matches l t)
    (hi : t.insertNode parent fid stat name = .ok (inserted, t')) :
    Matches l t' ∧ ∃ node, t'.nodes[inserted.nodeid]? = some node ∧ node.stat = stat ∧
      Matches (l.tell (node.report inserted.nodeid)) t' := by
  obtain ⟨path, hp, hi⟩ := bind_ok.mp hi
  split at hi
  · next nodeid hf =>
    obtain ⟨node, hn, hi⟩ := bind_ok.mp hi
    cases hi
    obtain ⟨hm, ht⟩ := h.lookedUp (NodeTable.getElem?_of_node hn)
    exact ⟨hm, _, getElem?_insert_self, rfl, ht⟩
  · cases hi
    refine ⟨h.added, _, getElem?_insert_self, rfl,
      h.added.tell getElem?_insert_self fun hid he => ?_⟩
    have hnn : t.nodes[t.nextNodeid]? = none := by
      cases hn : t.nodes[t.nextNodeid]? with
      | none => rfl
      | some node =>
        have := h.numbered t.nextNodeid node hn
        have : t.nextNodeid < U64_MAX := hid
        omega
    have hc := h.counted t.nextNodeid hid (Nat.le_of_succ_le he)
    rw [lookups_of_none hnn] at hc
    show l.entries t.nextNodeid + 1 ≤ 1 + l.forgotten t.nextNodeid
    omega

/-! ### Lookups that are given back -/

/-- Lookups of a node are forgotten. -/
def Ledger.forget (l : Ledger) (nodeid count : Nat) : Ledger :=
  { l with
    forgotten := fun other => if other = nodeid then l.forgotten other + count else l.forgotten
      other }

section
variable (h : Matches l t)
include h

theorem Matches.forgetting {count : Nat} : Matches (l.forget nodeid count) t where
  numbered := h.numbered
  stated := h.stated
  counted other hid he := by
    have hb := h.counted other hid he
    show l.entries other ≤ _ + if other = nodeid then _ else _
    split <;> omega
  reported := h.reported
  single := h.single

/-- One node has its lookups changed, or goes. -/
theorem Matches.touched (nodeid : Nat) (hnx : t'.nextNodeid = t.nextNodeid)
    (ho : ∀ other ≠ nodeid, t'.nodes[other]? = t.nodes[other]?)
    (hn : ∀ (node' : Node), t'.nodes[nodeid]? = some node' →
      ∃ node, t.nodes[nodeid]? = some node ∧ node'.qid = node.qid ∧ node'.stat = node.stat ∧
        node'.generation = node.generation)
    (hc : l.entries nodeid ≤ t'.lookups nodeid + l.forgotten nodeid ∨
      U64_MAX < l.entries nodeid ∨ U64_MAX ≤ nodeid) : Matches l t' := by
  have hb : ∀ (other : Nat) (node' : Node), t'.nodes[other]? = some node' →
      ∃ node, t.nodes[other]? = some node ∧ node'.qid = node.qid ∧ node'.stat = node.stat ∧
        node'.generation = node.generation := by
    intro other node' hn'
    by_cases heq : other = nodeid
    · subst heq
      exact hn node' hn'
    · exact ⟨node', (ho other heq).symm.trans hn', rfl, rfl, rfl⟩
  refine h.changed (by omega) (fun other node' hn' => ?_) (fun other node' hn' => ?_)
    (fun other _ hid he => ?_) fun other _ _ node' hn' => ?_
  · obtain ⟨node, hn, _⟩ := hb other node' hn'
    rw [hnx]
    exact h.numbered other node hn
  · obtain ⟨node, hn, hq, hst, _⟩ := hb other node' hn'
    rw [hq, hst]
    exact h.stated other node hn
  · by_cases heq : other = nodeid
    · subst heq
      omega
    · rw [NodeTable.lookups, ho other heq]
      exact h.counted other hid he
  · obtain ⟨node, hn, _, hst, hg⟩ := hb other node' hn'
    exact ⟨node, hn, .inr (.inr ⟨hg.symm, by rw [Node.identity, Node.identity, hst]⟩)⟩

theorem Matches.forget {count : Nat} :
    Matches (l.forget nodeid count) (t.forget nodeid count).2 := by
  have hf : (l.forget nodeid count).forgotten nodeid = l.forgotten nodeid + count :=
    if_pos rfl
  have he : (l.forget nodeid count).entries nodeid = l.entries nodeid := rfl
  have hb := h.counted nodeid
  unfold NodeTable.forget
  split
  · exact h.forgetting
  · split
    · exact h.forgetting
    · next node hn =>
      rw [lookups_of_some hn] at hb
      split
      · refine h.forgetting.touched nodeid rfl (fun other hne => ?_) (fun node' hn' => ?_) ?_
        · exact NodeTable.getElem?_insert_of_ne hne.symm
        · cases getElem?_insert_self.symm.trans hn'
          exact ⟨node, hn, rfl, rfl, rfl⟩
        · rw [NodeTable.lookups, getElem?_insert_self, hf, he]
          show _ ≤ node.lookups - count + _ ∨ _
          omega
      · refine h.forgetting.touched nodeid rfl (fun other hne => ?_) (fun node' hn' => ?_) ?_
        · rw [get_erase, if_neg hne.symm]
        · rw [get_erase, if_pos rfl] at hn'
          cases hn'
        · rw [hf, he]
          omega

/-- Nodes go that the kernel does not count. -/
theorem Matches.dropped {p : Nat → Node → Bool}
    (hs : ∀ (nodeid : Nat) (node : Node), t.nodes[nodeid]? = some node → p nodeid node = false →
      l.entries nodeid ≤ l.forgotten nodeid) : Matches l { t with nodes := t.nodes.filter p } := by
  have hf : ∀ (nodeid : Nat) (node : Node), (t.nodes.filter p)[nodeid]? = some node →
      t.nodes[nodeid]? = some node := by
    intro nodeid node hn
    rw [getElem?_filter'] at hn
    exact (Option.filter_eq_some_iff.mp hn).1
  refine h.changed (Nat.min_le_left _ _) (fun nodeid node hn => ?_) (fun nodeid node hn => ?_)
    (fun nodeid hk hid he => ?_) fun nodeid _ _ node hn => ?_
  · exact h.numbered nodeid node (hf nodeid node hn)
  · exact h.stated nodeid node (hf nodeid node hn)
  · have hb := h.counted nodeid hid he
    cases hn : t.nodes[nodeid]? with
    | none =>
      rw [lookups_of_none hn] at hb
      omega
    | some node =>
      cases hp : p nodeid node with
      | false => exact (hs nodeid node hn hp).trans (Nat.le_add_left _ _)
      | true =>
        have hkp : (t.nodes.filter p)[nodeid]? = some node := by
          rw [getElem?_filter', hn, Option.filter_some_pos hp]
        rw [lookups_of_some hn] at hb
        rw [lookups_of_some (t := { t with nodes := t.nodes.filter p }) hkp]
        exact hb
  · exact ⟨node, hf nodeid node hn, .inr (.inr ⟨rfl, rfl⟩)⟩

end

/-! ### The effects of the handlers -/

section Respects

variable {S : Service}

/-- Whatever the ledger, a table that matched it matches it still. -/
def Respects (b b' : Bridge S) : Prop := ∀ l, Matches l b.table → Matches l b'.table

theorem respects_of_table {b b' : Bridge S} (h : b'.table = b.table) : Respects b b' := by
  intro l hl
  rw [h]
  exact hl

theorem Matches.nodeMut {f : Node → Node} (h : Matches l t) (hm : t.nodeMut nodeid f = .ok t')
    (ht : ∀ node, t.nodes[nodeid]? = some node → node.Turns (f node)) : Matches l t' := by
  obtain ⟨node, hn, hm⟩ := bind_ok.mp hm
  cases hm
  have hn := NodeTable.getElem?_of_node hn
  exact h.update hn (ht node hn)

theorem min_lookups_le (node : Node) : min node.lookups U64_MAX ≤ node.lookups :=
  Nat.min_le_left _ _

theorem NodeTable.replaceBinding_ok {fid : Fid} {oldFid : Option Fid}
    (h : t.replaceBinding nodeid fid stat = .ok (oldFid, t')) :
    ∃ node, t.nodes[nodeid]? = some node ∧ t' = { t with
      nodes := t.nodes.insert nodeid { node.renew stat with fid := some fid } } := by
  obtain ⟨_, _, h⟩ := bind_ok.mp h
  obtain ⟨_, hm, h⟩ := bind_ok.mp h
  cases h
  obtain ⟨node, hn, hm⟩ := bind_ok.mp hm
  cases hm
  exact ⟨node, getElem?_of_node hn, rfl⟩

theorem Matches.replaceBinding {fid : Fid} {oldFid : Option Fid}
    (h : Matches l t) (hb : t.replaceBinding nodeid fid stat = .ok (oldFid, t')) :
    Matches l t' := by
  obtain ⟨node, hn, rfl⟩ := NodeTable.replaceBinding_ok hb
  exact h.update hn (.of_renew rfl rfl (min_lookups_le node) rfl)

theorem Matches.applyRebindResults {rebound : List (Nat × Fid × Stat)} {stale : List Nat}
    (h : Matches l t) : Matches l (t.applyRebindResults rebound stale) := by
  refine List.foldlRecOn rebound _ (List.foldlRecOn stale _ h fun table h nodeid _ => ?_)
    fun table h binding _ => ?_
  · cases hn : table.nodes[nodeid]? with
    | none => exact h
    | some node => exact h.update hn (.of_same rfl rfl rfl rfl)
  · obtain ⟨nodeid, fid, stat⟩ := binding
    dsimp only
    cases hn : table.nodes[nodeid]? with
    | none => exact h
    | some node => exact h.update hn (.of_renew rfl rfl (min_lookups_le node) rfl)

theorem Matches.markPathWith {path : Path} {includeDescendants : Bool} (h : Matches l t) :
    Matches l (t.markPathWith path includeDescendants).2 := by
  refine h.mapped fun nodeid node => ?_
  split
  · exact .of_same rfl rfl rfl rfl
  · exact .refl node

theorem handling_respects : Handling (Respects (S := S)) where
  refl _ _ hl := hl
  trans _ _ _ h h' l hl := h' l (h l hl)
  called _ _ _ := respects_of_table rfl
  live _ _ := respects_of_table rfl
  clock _ := respects_of_table rfl
  bound _ _ _ _ _ _ _ hb _ hl := hl.replaceBinding hb
  rebound _ _ _ _ _ hl := hl.applyRebindResults
  connected _ _ := respects_of_table rfl
  handled _ _ hnd hnx _ hl := hl.congr hnd hnx
  marked _ _ _ _ hl := hl.markPathWith

end Respects

end R9P.Fuse
