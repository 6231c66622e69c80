import R9P.Fuse.Ledger

/-!
# Entries told to the kernel

Library `Fuse`. The requests whose replies tell the kernel of nodes, and the one by which it
forgets them: what is told is how the table is, and it is counted there. All other requests tell
nothing.
-/

namespace R9P.Fuse
open Base Base.Checked Wire

variable {S : Service} {l : Ledger} {t t' : NodeTable} {b b' : Bridge S}

/-! ### Replies -/

/-- What an entry of a directory reports. -/
def DirentPlus.report (self : DirentPlus) : Report :=
  ⟨self.nodeid, self.generation, inodeIdentity self.stat⟩

/-- What a reply reports. -/
def Reply.reports : Reply → List Report
  | .entry nodeid generation stat => [⟨nodeid, generation, inodeIdentity stat⟩]
  | .created nodeid generation stat _ => [⟨nodeid, generation, inodeIdentity stat⟩]
  | .direntsPlus entries => entries.map DirentPlus.report
  | _ => []

/-- The nodes whose entries the kernel counts; the two special entries of a directory are not
counted. -/
def Reply.entries : Reply → List Nat
  | .entry nodeid _ _ => [nodeid]
  | .created nodeid _ _ _ => [nodeid]
  | .direntsPlus entries => (entries.filter (!·.special)).map (·.nodeid)
  | _ => []

/-- The ledger behind a reply. -/
def Ledger.reply (l : Ledger) (reply : Reply) : Ledger where
  entries nodeid := l.entries nodeid + reply.entries.count nodeid
  forgotten := l.forgotten
  reports := reply.reports ++ l.reports

/-- A reply that tells no entry. -/
def Reply.Silent (self : Reply) : Prop := self.entries = [] ∧ self.reports = []

variable {reply : Reply} {shape : Error → Bool}

theorem Ledger.reply_silent (h : reply.Silent) : l.reply reply = l := by
  show (⟨_, _, _⟩ : Ledger) = l
  rw [h.1, h.2]
  rfl

/-- A handler answers as the table is. -/
def Entered (l : Ledger) (r : Except Error Reply) (b : Bridge S) : Prop :=
  match r with
  | .ok reply => Matches (l.reply reply) b.table
  | .error _ => Matches l b.table

/-- A handler that tells no entry. -/
theorem entered_of_steps {x : Op S Reply} (hx : Steps Respects x)
    (hs : Yields (fun reply _ => reply.Silent) x) (h : Matches l b.table) :
    wp x (Entered l) b := by
  have hm := hx b l h
  unfold wp
  rcases he : x.exec b with ⟨r, b'⟩
  rw [he] at hm
  cases r with
  | error e => exact hm
  | ok reply =>
    show Matches (l.reply reply) b'.table
    rw [Ledger.reply_silent (hs b reply b' he)]
    exact hm

/-! ### Lookups and creations -/

/-- Behind a change to the table that may be refused. -/
theorem wp_alter_bind {α β : Type} {f : NodeTable → Except Error (α × NodeTable)} {k : α → Op S β}
    {Q : Except Error β → Bridge S → Prop} (he : ∀ e, f b.table = .error e → Q (.error e) b)
    (hok : ∀ a table, f b.table = .ok (a, table) → wp (k a) Q { b with table := table }) :
    wp (alter f >>= k) Q b := by
  unfold wp at hok ⊢
  cases hf : f b.table with
  | error e =>
    rw [exec_bind_error (exec_alter_error hf)]
    exact he e hf
  | ok found =>
    rw [exec_bind_ok (exec_alter_ok hf)]
    exact hok found.1 found.2 hf

theorem wp_node_bind {β : Type} {nodeid : Nat} {node : Node} {k : Node → Op S β}
    {Q : Except Error β → Bridge S → Prop} (hn : b.table.nodes[nodeid]? = some node)
    (hk : wp (k node) Q b) : wp (view (·.node nodeid) >>= k) Q b := by
  refine wp_ask_bind (fun e he => ?_) fun found hf => ?_
  · simp [NodeTable.node, hn] at he
  · cases hn.symm.trans (NodeTable.getElem?_of_node hf)
    exact hk

/-- The entry of a node is told. -/
theorem Matches.reply_of_tell {nodeid : Nat} {node : Node}
    (h : Matches (l.tell (node.report nodeid)) t) (he : reply.entries = [nodeid])
    (hrp : reply.reports = [node.report nodeid]) : Matches (l.reply reply) t := by
  refine h.reorder (funext fun other => ?_) rfl fun r hr => ?_
  · show l.entries other + reply.entries.count other =
      if other = nodeid then l.entries other + 1 else l.entries other
    rw [he]
    by_cases heq : other = nodeid
    · rw [if_pos heq, heq, List.count_singleton_self]
    · rw [if_neg heq, List.count_singleton, if_neg (by simpa using fun h => heq h.symm)]
      rfl
  · rw [Ledger.reply, hrp] at hr
    exact hr

variable (nodeid fh parent : Nat) (name : Bytes)

theorem entered_lookupOnce (h : Matches l b.table) : wp (lookupOnce parent name) (Entered l) b := by
  have hq : Handling (Respects (S := S)) := handling_respects
  have hf : Steps Respects (freshChildFid parent name : Op S Fid) :=
    hq.bind (hq.steps_view _) fun _ => hq.steps_walkFromSource _
  refine hf.wp_bind (fun e b₁ h₁ => h₁ l h) fun fid b₁ h₁ => ?_
  refine (hq.steps_stat fid).wp_bind (fun e b₂ h₂ => h₂ l (h₁ l h)) fun stat b₂ h₂ => ?_
  have hb₂ := h₂ l (h₁ l h)
  refine wp_alter_bind (fun e _ => hb₂) fun nodeid table hi => ?_
  obtain ⟨⟨inserted, _⟩, hi, hok⟩ := bind_ok.mp hi
  cases hok
  obtain ⟨hm, node, hn, hst, ht⟩ := hb₂.insertNode hi
  refine wp_node_bind hn (wp_alter_bind (fun e _ => hm) fun cached table' htk => ?_)
  obtain ⟨_, _, htk⟩ := bind_ok.mp htk
  obtain ⟨_, hmt, htk⟩ := bind_ok.mp htk
  cases htk
  have htn := ht.nodeMut hmt fun _ _ => .of_same rfl rfl rfl rfl
  refine (hq.steps_releaseAll _).wp_bind (fun e b₃ h₃ => ?_) fun _ b₃ h₃ => ?_
  · exact h₃ l (hm.nodeMut hmt fun _ _ => .of_same rfl rfl rfl rfl)
  · refine (h₃ _ htn).reply_of_tell rfl ?_
    rw [Node.report, Node.identity, hst]
    rfl

/-- A reply without an entry is entered anywhere. -/
theorem Matches.entered (h : Matches l b.table) (hs : reply.Silent) :
    Entered l (.ok reply) b := by
  show Matches (l.reply reply) b.table
  rw [Ledger.reply_silent hs]
  exact h

theorem entered_lookupReply {r : Except Error Reply} (h : Entered l r b) :
    wp (lookupReply r) (Entered l) b := by
  refine wp_ask_bind (fun e he => nomatch he) fun negative _ => ?_
  cases r with
  | ok reply => exact h
  | error e =>
    show wp (if (e.errno = ENOENT && negative) = true then _ else _) _ _
    split
    · exact .entered h ⟨rfl, rfl⟩
    · exact h

theorem entered_lookup (h : Matches l b.table) : wp (lookup parent name) (Entered l) b := by
  have ho : ∀ b : Bridge S, Matches l b.table → wp (lookupOnce parent name) (Entered l) b :=
    fun b h => entered_lookupOnce parent name h
  have ha : ∀ b : Bridge S, Matches l b.table → wp (do
      let result ← attempt (lookupOnce parent name)
      lookupReply result : Op S Reply) (Entered l) b := fun b h =>
    (ho b h).bind_attempt (fun _ _ h₁ => entered_lookupReply h₁) fun _ _ h₁ =>
      entered_lookupReply h₁
  unfold lookup
  split
  · exact h.entered ⟨rfl, rfl⟩
  · refine (ho b h).bind_attempt (fun reply b₁ h₁ => entered_lookupReply h₁) fun e b₁ h₁ => ?_
    show wp (if isTransportError e = true then _
      else if isLookupNamespaceShapeError e = true then _ else _) _ _
    split
    · exact handling_respects.steps_reconnect.wp_bind (fun _ _ h₂ => h₂ l h₁)
        fun _ b₂ h₂ => ha b₂ (h₂ l h₁)
    · split
      · exact (handling_respects.steps_recoverNamespaceShape parent).wp_bind
          (fun _ _ h₂ => h₂ l h₁) fun _ b₂ h₂ => ha b₂ (h₂ l h₁)
      · exact entered_lookupReply h₁

section
variable (h : Handling (Respects (S := S))) (parent : Nat) (name : Bytes) (perm : UInt32)
  (mode : UInt8)
include h

theorem steps_createRemote :
    Steps Respects (createRemote parent name perm mode : Op S (Fid × Fid × Qid)) := by
  refine h.bind (h.steps_boundNodeFid _) fun _ => h.bind (h.steps_cloneFid _) fun createFid => ?_
  exact h.bind_attempt (h.steps_create _ _ _ _) (fun _ => h.steps_pure _)
    fun e => h.steps_release_throw createFid e

theorem steps_createWithRecovery :
    Steps Respects (createWithRecovery parent name perm mode : Op S (Fid × Fid × Qid)) := by
  refine h.bind_attempt (steps_createRemote h _ _ _ _) (fun _ => h.steps_pure _) fun e =>
    .ite ?_ (h.steps_throw e)
  exact h.bind (h.steps_recoverNamespaceShape _) fun _ => steps_createRemote h _ _ _ _

end

theorem steps_walkCreated (h : Handling (Respects (S := S))) (parentFid : Fid) (name : Bytes) :
    Steps Respects (walkCreated parentFid name : Op S (Fid × Stat)) :=
  h.bind (h.steps_walkOne _ _) fun nodeFid => h.bind_attempt (h.steps_stat _)
    (fun _ => h.steps_pure _) fun e => h.steps_release_throw nodeFid e

/-- A handle is opened beside the nodes. -/
theorem Matches.openHandle {handle : Handle} (h : Matches l t) :
    Matches l (t.openHandle handle).2 := h.congr rfl rfl

theorem entered_createFile (perm : UInt32) (mode : UInt8)
    (h : Matches l b.table) : wp (createFile parent name perm mode) (Entered l) b := by
  have hq : Handling (Respects (S := S)) := handling_respects
  refine (steps_createWithRecovery hq _ _ _ _).wp_bind (fun e b₁ h₁ => h₁ l h)
    fun created b₁ h₁ => wp_ask_bind (fun e he => nomatch he) fun client _ => ?_
  refine (steps_walkCreated hq _ _).wp.bind_attempt (fun walked b₂ h₂ => ?_) fun e b₂ h₂ => ?_
  · have hb₂ := h₂ l (h₁ l h)
    refine wp_alter_bind (fun e _ => hb₂) fun inserted table hi => ?_
    obtain ⟨hm, node, hn, hst, ht⟩ := hb₂.insertNode hi
    refine wp_node_bind hn ((hq.steps_releaseAll _).wp_bind
      (fun e b₃ h₃ => h₃ l hm.openHandle) fun _ b₃ h₃ => ?_)
    refine (h₃ _ ht.openHandle).reply_of_tell rfl ?_
    rw [Node.report, Node.identity, hst]
    rfl
  · have hb₂ := h₂ l (h₁ l h)
    show wp (if isNamespaceShapeError e = true then _ else _) _ _
    split
    · refine wp_alter_bind (fun e _ => hb₂) fun nodeid table hi => ?_
      obtain ⟨⟨inserted, _⟩, hi, hok⟩ := bind_ok.mp hi
      cases hok
      obtain ⟨hm, node, hn, hst, ht⟩ := hb₂.insertNode hi
      refine wp_node_bind hn (.reply_of_tell ht.openHandle rfl ?_)
      rw [Node.report, Node.identity, hst]
      rfl
    · exact (hq.steps_release _).wp_bind (fun e b₃ h₃ => h₃ l hb₂) fun _ b₃ h₃ => h₃ l hb₂

theorem entered_insertCreatedNode (parentFid : Fid) (name : Bytes)
    (h : Matches l b.table) : wp (insertCreatedNode parent parentFid name) (Entered l) b := by
  have hq : Handling (Respects (S := S)) := handling_respects
  refine (hq.steps_walkOne _ _).wp_bind (fun e b₁ h₁ => h₁ l h) fun nodeFid b₁ h₁ => ?_
  refine (hq.steps_stat _).wp_bind (fun e b₂ h₂ => h₂ l (h₁ l h)) fun stat b₂ h₂ => ?_
  have hb₂ := h₂ l (h₁ l h)
  refine wp_alter_bind (fun e _ => hb₂) fun inserted table hi => ?_
  obtain ⟨hm, node, hn, hst, ht⟩ := hb₂.insertNode hi
  refine wp_node_bind hn ((hq.steps_releaseAll _).wp_bind (fun e b₃ h₃ => h₃ l hm)
    fun _ b₃ h₃ => ?_)
  refine (h₃ _ ht).reply_of_tell rfl ?_
  rw [Node.report, Node.identity, hst]
  rfl

theorem entered_makeNode (perm : UInt32) (h : Matches l b.table) :
    wp (makeNode parent name perm) (Entered l) b := by
  refine (steps_createWithRecovery handling_respects _ _ _ _).wp_bind (fun _ _ h₁ => h₁ l h)
    fun _ _ h₁ => ?_
  refine (handling_respects.steps_release _).wp_bind (fun _ _ h₂ => h₂ l (h₁ l h)) fun _ _ h₂ => ?_
  exact entered_insertCreatedNode _ _ _ (h₂ l (h₁ l h))

/-! ### Directories -/

/-- The ledger behind an entry of a directory. -/
def Ledger.dirent (l : Ledger) (entry : DirentPlus) : Ledger :=
  if entry.special then l.report entry.report else l.tell entry.report

/-- A directory is told entry by entry. -/
theorem Matches.reply_dirents {entry : DirentPlus} {rest : List DirentPlus}
    (h : Matches ((l.dirent entry).reply (.direntsPlus rest)) t) :
    Matches (l.reply (.direntsPlus (entry :: rest))) t := by
  refine h.reorder (funext fun nodeid => ?_) ?_ fun r hr => ?_
  · show l.entries nodeid + (((entry :: rest).filter (!·.special)).map (·.nodeid)).count nodeid =
      (l.dirent entry).entries nodeid + ((rest.filter (!·.special)).map (·.nodeid)).count nodeid
    rw [Ledger.dirent]
    cases hs : entry.special with
    | true =>
      rw [List.filter_cons_of_neg (by rw [hs]; decide)]
      rfl
    | false =>
      rw [List.filter_cons_of_pos (by rw [hs]; rfl), List.map_cons, List.count_cons,
        if_neg Bool.false_ne_true]
      show _ = (if nodeid = entry.nodeid then l.entries nodeid + 1 else l.entries nodeid) + _
      by_cases heq : nodeid = entry.nodeid
      · rw [if_pos heq, heq, if_pos (beq_self_eq_true _)]
        omega
      · rw [if_neg heq, if_neg (by simpa using fun h => heq h.symm)]
        omega
  · unfold Ledger.dirent
    split <;> rfl
  · have hd : (l.dirent entry).reports = entry.report :: l.reports := by
      unfold Ledger.dirent
      split <;> rfl
    show r ∈ rest.map DirentPlus.report ++ (l.dirent entry).reports
    rw [hd]
    rcases List.mem_cons.mp hr with rfl | hr
    · exact List.mem_append_right _ List.mem_cons_self
    · rcases List.mem_append.mp hr with hr | hr
      · exact List.mem_append_left _ hr
      · exact List.mem_append_right _ (List.mem_cons_of_mem _ hr)

/-- The table still matches what was told before, and what is told with a result. -/
def Adds {α : Type} (told : α → Ledger) (b : Bridge S) (r : Except Error α) (b' : Bridge S) :
    Prop :=
  Respects b b' ∧ ∀ a, r = .ok a → Matches (told a) b'.table

/-- The ledger behind the entry at an index, if there is one. -/
def Ledger.dirent? (l : Ledger) : Option DirentPlus → Ledger
  | some entry => l.dirent entry
  | none => l

theorem adds_special (up : Bool) (h : Matches l b.table) :
    wp (specialDirentplusEntry parent name up) (Adds l.dirent b) b := by
  have hr : Respects b b := handling_respects.refl b
  refine wp_ask_bind (fun e _ => ⟨hr, nofun⟩) fun nodeid _ => ?_
  refine wp_ask_bind (fun e _ => ⟨hr, nofun⟩) fun node hn => ⟨hr, fun entry he => ?_⟩
  cases he
  exact h.report (NodeTable.getElem?_of_node hn)

theorem adds_direntplus (entries : List DirEntry) (index : Nat)
    (h : Matches l b.table) : wp (direntplus parent entries index) (Adds l.dirent? b) b := by
  have hr : Respects b b := handling_respects.refl b
  have hs (name : Bytes) (up : Bool) : wp (do
      let entry ← specialDirentplusEntry parent name up
      pure (some entry) : Op S (Option DirentPlus)) (Adds l.dirent? b) b := by
    refine (adds_special parent name up h).bind (fun entry b₁ h₁ => ⟨h₁.1, fun entry' he => ?_⟩)
      fun e b₁ h₁ => ⟨h₁.1, nofun⟩
    cases he
    exact h₁.2 entry rfl
  match index with
  | 0 | 1 => exact hs _ _
  | index + 2 =>
    unfold direntplus
    dsimp only
    cases entries[index]? with
    | none =>
      refine ⟨hr, fun entry he => ?_⟩
      cases he
      exact h
    | some entry =>
      refine wp_alter_bind (fun e _ => ⟨hr, nofun⟩) fun nodeid table hi => ?_
      obtain ⟨⟨inserted, _⟩, hi, hok⟩ := bind_ok.mp hi
      cases hok
      obtain ⟨_, node, hn, hst, ht⟩ := h.insertNode hi
      refine wp_node_bind hn ⟨fun l' h' => (h'.insertNode hi).1, fun entry' he => ?_⟩
      cases he
      rw [Node.report, Node.identity, hst] at ht
      exact ht

theorem adds_encodeDirentsPlus (size : Nat) (entries : List DirEntry)
    (left index used : Nat) (h : Matches l b.table) :
    wp (encodeDirentsPlus parent size entries left index used)
      (Adds (fun out => l.reply (.direntsPlus out)) b) b := by
  have hem (l : Ledger) (b b' : Bridge S) (hb : Respects b b') (h : Matches l b'.table) :
      Adds (fun out => l.reply (.direntsPlus out)) b (.ok []) b' := by
    refine ⟨hb, fun out ho => ?_⟩
    cases ho
    exact h.entered ⟨rfl, rfl⟩
  induction left generalizing l b index used with
  | zero => exact hem l b b (handling_respects.refl b) h
  | succ left ih =>
    unfold encodeDirentsPlus
    show wp (if size < _ then _ else _) _ _
    split
    · exact hem l b b (handling_respects.refl b) h
    · refine (adds_direntplus parent entries index h).bind (fun entry b₁ h₁ => ?_)
        fun e b₁ h₁ => ⟨h₁.1, nofun⟩
      have he := h₁.2 entry rfl
      cases entry with
      | none => exact hem l b b₁ h₁.1 he
      | some entry =>
        refine (ih _ _ he).bind (fun rest b₂ h₂ => ?_) fun e b₂ h₂ => ?_
        · refine ⟨handling_respects.trans _ _ _ h₁.1 h₂.1, fun out ho => ?_⟩
          cases ho
          exact (h₂.2 rest rfl).reply_dirents
        · exact ⟨handling_respects.trans _ _ _ h₁.1 h₂.1, nofun⟩

theorem entered_readdirplus (offset size reads : Nat) (h : Matches l b.table) :
    wp (readdirplus nodeid fh offset size reads) (Entered l) b := by
  refine (handling_respects.steps_directoryEntries _ _ _ _ _ _).wp_bind (fun e b₁ h₁ => h₁ l h)
    fun entries b₁ h₁ => ?_
  exact (adds_encodeDirentsPlus nodeid size entries _ offset 0 (h₁ l h)).bind
    (fun out b₂ h₂ => h₂.2 out rfl) fun e b₂ h₂ => h₂.1 l (h₁ l h)

/-! ### Forgetting -/

/-- The ledger behind what the kernel forgets. -/
def Ledger.forgetAll (l : Ledger) (counts : List (Nat × Nat)) : Ledger :=
  counts.foldl (fun l count => l.forget count.1 count.2) l

theorem entered_forget (counts : List (Nat × Nat)) (h : Matches l b.table) :
    wp (forget counts) (Entered (l.forgetAll counts)) b := by
  induction counts generalizing l b with
  | nil => exact h.entered ⟨rfl, rfl⟩
  | cons count counts ih =>
    have hf : wp (forgetNode count.1 count.2 : Op S Unit)
        (fun r b' => r = .ok () ∧ Matches (l.forget count.1 count.2) b'.table) b := by
      unfold forgetNode
      rw [wp_change_bind]
      exact (total_releaseAll _).wp_and (handling_respects.steps_releaseAll _).wp
        fun _ b₁ h₁ => ⟨rfl, h₁ _ h.forget⟩
    exact hf.bind (fun _ b₁ h₁ => ih h₁.2) fun e b₁ h₁ => nomatch h₁.1

/-! ### Handlers that tell no entry -/

/-- A handler whose replies tell no entry. -/
def Mute (x : Op S Reply) : Prop := Yields (fun reply _ => reply.Silent) x

theorem mute_pure (h : reply.Silent) : Mute (pure reply : Op S Reply) :=
  yields_pure fun _ => h

theorem mute_throw (e : Error) : Mute (throw e : Op S Reply) := yields_throw e

theorem mute_bind {α : Type} {x : Op S α} {f : α → Op S Reply} (hf : ∀ a, Mute (f a)) :
    Mute (x >>= f) := yields_bind hf

theorem mute_withRecovery {recover : Op S Unit} {body : Op S Reply}
    (hb : Mute body) : Mute (withRecovery shape recover body) := by
  refine Yields.bind_attempt hb (fun reply b reply' b' h he => ?_) fun e =>
    Yields.ite (mute_bind fun _ => hb) (Yields.ite (mute_bind fun _ => hb) (mute_throw e))
  cases he
  exact h

/-- A first try whose reply is passed on. -/
theorem mute_attempt {x : Op S Reply} {f : Error → Op S Reply} (hx : Mute x)
    (hf : ∀ e, Mute (f e)) :
    Mute (do
      match ← attempt x with
      | .ok reply => pure reply
      | .error e => f e : Op S Reply) := by
  refine Yields.bind_attempt hx (fun reply b reply' b' h he => ?_) hf
  cases he
  exact h

theorem mute_openOnce (mode : UInt8) (isDirOpen : Bool) :
    Mute (openOnce nodeid mode isDirOpen : Op S Reply) :=
  mute_bind fun _ => .ite (mute_pure ⟨rfl, rfl⟩) (mute_bind fun _ => mute_bind fun _ =>
    mute_bind fun _ => mute_bind fun _ => mute_pure ⟨rfl, rfl⟩)

theorem mute_openNode (mode : UInt8) (isDirOpen : Bool) :
    Mute (openNode nodeid mode isDirOpen : Op S Reply) :=
  mute_attempt (mute_openOnce _ _ _) fun e => .ite (mute_bind fun _ => mute_openOnce _ _ _)
    (.ite (mute_bind fun _ => .ite (mute_openOnce _ _ _) (mute_throw _)) (mute_throw e))

theorem mute_releaseHandle : Mute (releaseHandle nodeid fh : Op S Reply) := by
  refine mute_bind fun removed => ?_
  cases removed with
  | none => exact mute_pure ⟨rfl, rfl⟩
  | some handle =>
    refine .ite ?_ (.ite (mute_pure ⟨rfl, rfl⟩) ?_)
    · cases handle.directory with
      | none => exact mute_pure ⟨rfl, rfl⟩
      | some stream => exact mute_bind fun _ => mute_pure ⟨rfl, rfl⟩
    · cases handle.fid with
      | none => exact mute_pure ⟨rfl, rfl⟩
      | some fid => exact mute_bind fun _ => mute_pure ⟨rfl, rfl⟩

theorem mute_flush : Mute (flush nodeid fh : Op S Reply) :=
  mute_bind fun _ => .ite (mute_bind fun _ => mute_bind fun _ => mute_bind fun _ =>
    mute_bind fun _ => mute_pure ⟨rfl, rfl⟩) (mute_pure ⟨rfl, rfl⟩)

theorem mute_read (offset size : Nat) : Mute (read nodeid fh offset size : Op S Reply) :=
  mute_bind fun _ => .ite (mute_pure ⟨rfl, rfl⟩) (mute_bind fun _ => mute_bind fun _ =>
    mute_bind fun _ => mute_pure ⟨rfl, rfl⟩)

theorem mute_readdir (offset size reads : Nat) :
    Mute (readdir nodeid fh offset size reads : Op S Reply) :=
  mute_bind fun _ => mute_bind fun _ => mute_pure ⟨rfl, rfl⟩

theorem mute_readlink : Mute (readlink nodeid : Op S Reply) := by
  refine mute_bind fun _ => .ite (mute_pure ⟨rfl, rfl⟩) (mute_bind fun _ => mute_bind fun _ =>
    mute_bind fun bytes => ?_)
  cases bytes with
  | ok bytes => exact mute_pure ⟨rfl, rfl⟩
  | error e =>
    exact .ite (mute_bind fun _ => mute_throw _)
      (.ite (mute_bind fun _ => mute_throw _) (mute_throw e))

theorem mute_write (offset : Nat) (data : Bytes) :
    Mute (write nodeid fh offset data : Op S Reply) :=
  mute_bind fun _ => mute_bind fun _ => mute_bind fun _ => mute_bind fun _ => mute_bind fun _ =>
    .ite (mute_bind fun _ => mute_pure ⟨rfl, rfl⟩) (mute_pure ⟨rfl, rfl⟩)

theorem mute_applyNamespaceChange (change : MountedChange) :
    Mute (applyNamespaceChange change : Op S Reply) := by
  cases change with
  | root => exact mute_bind fun _ => mute_pure ⟨rfl, rfl⟩
  | created path | modified path | removed path =>
    exact mute_bind fun _ => mute_bind fun _ => mute_pure ⟨rfl, rfl⟩
  | renamed old new =>
    exact mute_bind fun _ => mute_bind fun _ => mute_bind fun _ => mute_pure ⟨rfl, rfl⟩

theorem mute_getattr : Mute (getattr nodeid : Op S Reply) := by
  refine mute_withRecovery (mute_bind fun cached => ?_)
  cases cached with
  | some stat => exact mute_pure ⟨rfl, rfl⟩
  | none => exact mute_bind fun _ => mute_bind fun _ => mute_bind fun _ => mute_pure ⟨rfl, rfl⟩

theorem mute_setattrOnce (size : Option UInt64) (fh : Option Nat) :
    Mute (setattrOnce nodeid size fh : Op S Reply) :=
  mute_bind fun _ => mute_bind fun _ => mute_bind fun _ => mute_bind fun _ => mute_pure ⟨rfl, rfl⟩

theorem mute_setattr (size : Option UInt64) (fh : Option Nat) :
    Mute (setattr nodeid size fh : Op S Reply) :=
  mute_attempt (mute_setattrOnce _ _ _) fun e => .ite
    (mute_bind fun _ => .ite (mute_throw _) (mute_setattrOnce _ _ _)) (mute_throw e)

end R9P.Fuse
