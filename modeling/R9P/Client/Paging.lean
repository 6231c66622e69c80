import R9P.Server.Completion

/-!
# Reading a whole directory

Library `Client`. `read_all` of `crates/core/src/blocking.rs` reads from offset 0 until a read
comes back empty, here against a server that answers as `handlers.rs` does for a directory.
Every offset it sends is the end of some number of records, which the session remembers, so
the read is accepted, returns the next records whole, and the records come together again.
-/

namespace R9P.Client
open Base Base.Checked Wire Server
open Stat (bytes)

/-! ### The client -/

/-- `client_support.rs:55`. -/
def checkedReadData (data : Bytes) (requested : UInt32) : Result Bytes :=
  if data.length ≥ 2 ^ 32 then .error (.fromStatic "read count overflow")
  else if data.length > requested.toNat then
    .error (.fromStatic "9P server reported more bytes read than requested")
  else .ok data

/-- `client_support.rs:74`. -/
def checkedAdvanceOffset (offset count : UInt64) : Result UInt64 :=
  if offset.toNat + count.toNat < 2 ^ 64 then .ok (offset + count)
  else .error (.fromStatic "9P offset overflow")

variable {σ : Type}

/-- One read of `BlockingClient`, with the server's answer at an offset; `blocking.rs:298`. -/
def blockingRead (serve : UInt64 → σ → Result Bytes × σ) (count : UInt32) (offset : UInt64)
    (s : σ) : Result Bytes × σ :=
  ((serve offset s).1 >>= fun data => checkedReadData data count, (serve offset s).2)

/-- The loop of `read_all`, `blocking.rs:536`, for at most a number of turns. -/
def readAllLoop (serve : UInt64 → σ → Result Bytes × σ) (count : UInt32) :
    Nat → UInt64 → Bytes → σ → Option (Result Bytes × σ)
  | 0, _, _, _ => none
  | turns + 1, offset, out, s =>
    match blockingRead serve count offset s with
    | (.error e, s') => some (.error e, s')
    | (.ok data, s') =>
      if data.isEmpty then some (.ok out, s')
      else if data.length ≥ 2 ^ 64 then some (.error (.fromStatic "read count overflow"), s')
      else
        match checkedAdvanceOffset offset (UInt64.ofNat data.length) with
        | .error e => some (.error e, s')
        | .ok next => readAllLoop serve count turns next (out ++ data) s'

/-- `blocking.rs:533`. -/
def readAll (serve : UInt64 → σ → Result Bytes × σ) (count : UInt32) (turns : Nat) (s : σ) :
    Option (Result Bytes × σ) :=
  readAllLoop serve count turns 0 [] s

/-! ### The server -/

/-- A read of a fid whose file is a directory with these entries: the check of
`handlers.rs:663`, and the completion of `handlers.rs:451`. -/
def serveDirectory (stats : List Stat) (count : UInt32) (offset : UInt64) (state : FidState) :
    Result Bytes × FidState :=
  match validateRead state offset with
  | .error e => (.error e, state)
  | .ok () =>
    match dirreadChunk stats offset count with
    | .error e => (.error e, state)
    | .ok data =>
      if state.qid.isDir then
        if offset.toNat + data.length ≥ 2 ^ 64 then
          (.error (.fromStatic "directory offset overflow"), state)
        else (.ok data, state.withDirectoryOffset (offset + UInt64.ofNat data.length))
      else (.ok data, state)

/-- What the session does with a directory it completes a read with, on a fid the read may be
applied to, is `serveDirectory`. -/
theorem serveDirectory_applyCompletion {s : Session} {variant : Variant} {fid : Fid} (tag : Tag)
    {stats : List Stat} {count : UInt32} {offset : UInt64} {state : FidState}
    (hvr : s.variant = some variant) (hss : forAll (validateStatVariant variant) stats = .ok ())
    (hf : s.fid fid = .ok state) (hb : s.Bindable fid) (hr : validateRead state offset = .ok ()) :
    (applyCompletion tag (.read fid state.qid offset count) (.read (.directory stats))).wp
      (fun reply s' => reply = (serveDirectory stats count offset state).1.map (.read tag) ∧
        s'.fids[fid]? = some (serveDirectory stats count offset state).2) s := by
  have hs : s.fids[fid]? = some state := (Session.fid_ok_iff.mp hf).2
  unfold serveDirectory applyCompletion
  rw [hr]
  refine wp_ask_bind ?_ fun v hv => ?_
  · intro e he
    rw [hvr] at he
    cases he
  rw [hvr] at hv
  cases hv
  refine wp_ask_bind ?_ fun _ _ => ?_
  · intro e he
    rw [hss] at he
    cases he
  refine wp_ask_bind ?_ fun data hd => ?_
  · intro e he
    rw [he]
    exact ⟨rfl, hs⟩
  rw [hd]
  dsimp only
  by_cases hdr : state.qid.isDir
  · rw [if_pos hdr, if_pos hdr]
    refine wp_ask_bind ?_ fun st hst => ?_
    · intro e he
      rw [hf] at he
      cases he
    rw [hf] at hst
    cases hst
    refine wp_refuseIf_bind (fun hfl => ?_) fun hrm => ?_
    · rw [if_pos (of_decide_eq_true hfl)]
      exact ⟨rfl, hs⟩
    · rw [if_neg (of_decide_eq_false hrm), wp_bind]
      refine Session.wp_bindFid (fun e hn => absurd hb hn) fun _ => ?_
      exact ⟨rfl, Std.ExtTreeMap.getElem?_insert_self⟩
  · rw [if_neg hdr, if_neg hdr]
    exact ⟨rfl, hs⟩

/-- A read as the server saw it. -/
structure Sent where
  offset : UInt64
  state : FidState
  answer : Result Bytes

/-- A server that keeps a record of the reads. -/
def recorded (serve : UInt64 → FidState → Result Bytes × FidState) (offset : UInt64)
    (s : FidState × List Sent) : Result Bytes × (FidState × List Sent) :=
  ((serve offset s.1).1, ((serve offset s.1).2, ⟨offset, s.1, (serve offset s.1).1⟩ :: s.2))

/-- A read that the session accepts and answers with whole entries within the count. -/
def Sent.Whole (stats : List Stat) (count : UInt32) (sent : Sent) : Prop :=
  validateRead sent.state sent.offset = .ok () ∧
    ∃ chunk data, sent.answer = .ok data ∧ decodeDirEntries data = .ok chunk ∧
      chunk <:+: stats ∧ data.length ≤ count.toNat

/-! ### All of it -/

variable {stats : List Stat} {count : UInt32} {state : FidState} {offset : UInt64}

/-- A fid that may be read from the start may be read from where the last read ended. -/
theorem validateRead_withDirectoryOffset (h : validateRead state 0 = .ok ()) (offset : UInt64) :
    validateRead (state.withDirectoryOffset offset) offset = .ok () := by
  unfold validateRead FidState.withDirectoryOffset at *
  split
  · rfl
  · next ha =>
    rw [if_neg ha] at h
    cases hm : state.openMode with
    | none =>
      rw [hm] at h
      cases h
    | some mode =>
      rw [hm] at h
      dsimp only at h ⊢
      split at h
      · cases h
      · next hr =>
        rw [if_neg hr]
        simp

/-- Where the last read ended does not matter to a read from the start. -/
theorem validateRead_start (h : validateRead state 0 = .ok ()) (offset : UInt64) :
    validateRead (state.withDirectoryOffset offset) 0 = .ok () := by
  unfold validateRead FidState.withDirectoryOffset at *
  simpa using h

/-- A file that is not a directory may be read anywhere, or nowhere. -/
theorem validateRead_file (h : ¬ state.qid.isDir) (offset offset' : UInt64) :
    validateRead state offset = validateRead state offset' := by
  unfold validateRead
  simp [h]

/-- A read at the end of some entries returns the next ones, and leaves the fid where it may
be read from the end of those. -/
theorem serveDirectory_boundary {passed rest : List Stat} (count : UInt32)
    (hsh : ∀ s ∈ passed ++ rest, ShortLength s.body)
    (hsz : ((passed ++ rest).flatMap bytes).length < 2 ^ 64)
    (ho : offset.toNat = (passed.flatMap bytes).length)
    (hst : validateRead state 0 = .ok ()) (hh : validateRead state offset = .ok ()) :
    ∃ chunk left state', rest = chunk ++ left ∧ serveDirectory (passed ++ rest) count offset state
        = (.ok (chunk.flatMap bytes), state') ∧
      (chunk.flatMap bytes).length ≤ count.toNat ∧
      (∀ s ∈ left.head?, count.toNat < (chunk.flatMap bytes).length + s.bytes.length) ∧
      validateRead state' 0 = .ok () ∧
      validateRead state' (offset + UInt64.ofNat (chunk.flatMap bytes).length) = .ok () := by
  obtain ⟨chunk, left, hrs, hc, hcn, hl⟩ :=
    dirreadChunk_boundary count hsh hsz ho
  have hf : offset.toNat + (chunk.flatMap bytes).length < 2 ^ 64 := by
    rw [hrs, List.flatMap_append, List.flatMap_append, List.length_append,
      List.length_append] at hsz
    omega
  unfold serveDirectory
  rw [hh, hc]
  dsimp only
  by_cases hdr : state.qid.isDir
  · rw [if_pos hdr, if_neg (by omega)]
    refine ⟨chunk, left, _, hrs, rfl, hcn, hl, ?_, ?_⟩
    · exact validateRead_start hst _
    · exact validateRead_withDirectoryOffset hst _
  · rw [if_neg hdr]
    refine ⟨chunk, left, _, hrs, rfl, hcn, hl, hst, ?_⟩
    rw [validateRead_file hdr _ 0]
    exact hst

theorem checkedReadData_ok {data : Bytes} (h : data.length ≤ count.toNat) :
    checkedReadData data count = .ok data := by
  have hcn := count.toNat_lt
  unfold checkedReadData
  rw [if_neg (by omega), if_neg (by omega)]

theorem toNat_add_ofNat {n : Nat} (h : offset.toNat + n < 2 ^ 64) :
    (offset + UInt64.ofNat n).toNat = offset.toNat + n := by
  rw [UInt64.toNat_add, UInt64.toNat_ofNat_of_lt' (show n < 2 ^ 64 by omega), Nat.mod_eq_of_lt h]

theorem checkedAdvanceOffset_ok {n : Nat} (h : offset.toNat + n < 2 ^ 64) :
    checkedAdvanceOffset offset (UInt64.ofNat n) = .ok (offset + UInt64.ofNat n) := by
  unfold checkedAdvanceOffset
  rw [UInt64.toNat_ofNat_of_lt' (show n < 2 ^ 64 by omega), if_pos h]

theorem length_flatMap_pos {entries : List Stat} (h : entries ≠ []) :
    0 < (entries.flatMap bytes).length := by
  cases entries with
  | nil => exact absurd rfl h
  | cons s entries =>
    rw [List.flatMap_cons, List.length_append, Stat.length_bytes]
    omega

/-- What is left of a directory is read from the end of what was, and every read of it is
accepted and answered in whole entries. -/
theorem readAllLoop_directory (hsh : ∀ s ∈ stats, ShortLength s.body)
    (hcn : ∀ s ∈ stats, s.bytes.length ≤ count.toNat)
    (hsz : (stats.flatMap bytes).length < 2 ^ 64) (passed rest : List Stat) (turns : Nat)
    (log : List Sent) (hss : stats = passed ++ rest) (ht : rest.length < turns)
    (ho : offset.toNat = (passed.flatMap bytes).length) (hst : validateRead state 0 = .ok ())
    (hh : validateRead state offset = .ok ()) (hlg : ∀ sent ∈ log, sent.Whole stats count) :
    ∃ state' log', readAllLoop (recorded (serveDirectory stats count)) count turns offset
        (passed.flatMap bytes) (state, log)
        = some (.ok (stats.flatMap bytes), state', log') ∧
      ∀ sent ∈ log', sent.Whole stats count := by
  induction turns generalizing passed rest offset state log with
  | zero => omega
  | succ turns ih =>
    rw [hss] at hsh hsz
    obtain ⟨chunk, left, state', hrs, hsr, hle, hl, hst', hh'⟩ :=
      serveDirectory_boundary count hsh hsz ho hst hh
    rw [← hss] at hsr hsh hsz
    have hr : blockingRead (recorded (serveDirectory stats count)) count offset (state, log)
        = (.ok (chunk.flatMap bytes), state',
            ⟨offset, state, .ok (chunk.flatMap bytes)⟩ :: log) := by
      unfold blockingRead recorded
      rw [hsr]
      exact Prod.ext (checkedReadData_ok hle) rfl
    have hw : (⟨offset, state, .ok (chunk.flatMap bytes)⟩ : Sent).Whole stats count := by
      have hp : chunk <:+: stats := ⟨passed, left, by rw [hss, hrs, List.append_assoc]⟩
      refine ⟨hh, chunk, _, rfl, decodeDirEntries_flatMap ?_, hp, hle⟩
      intro s hs
      exact hsh s (hp.subset hs)
    have hlg' : ∀ sent ∈ ⟨offset, state, .ok (chunk.flatMap bytes)⟩ :: log,
        sent.Whole stats count := List.forall_mem_cons.mpr ⟨hw, hlg⟩
    unfold readAllLoop
    rw [hr]
    dsimp only
    by_cases hc : chunk = []
    · -- nothing fits, but every entry does: nothing is left
      subst hc
      have hnn : left = [] := by
        cases left with
        | nil => rfl
        | cons s left =>
          have hlt := hl s rfl
          have hft := hcn s (by simp [hss, hrs])
          simp only [List.flatMap_nil, List.length_nil] at hlt
          omega
      have ha : passed = stats := by rw [hss, hrs, hnn, List.append_nil, List.append_nil]
      rw [if_pos (by rfl), ha]
      exact ⟨state', _, rfl, hlg'⟩
    · have hps : 0 < (chunk.flatMap bytes).length := length_flatMap_pos hc
      have hn : offset.toNat + (chunk.flatMap bytes).length
          = ((passed ++ chunk).flatMap bytes).length := by
        rw [List.flatMap_append, List.length_append, ho]
      have hf : ((passed ++ chunk).flatMap bytes).length < 2 ^ 64 := by
        rw [hss, hrs, ← List.append_assoc, List.flatMap_append, List.length_append] at hsz
        omega
      rw [if_neg (by simpa using List.ne_nil_of_length_pos hps), if_neg (by omega),
        checkedAdvanceOffset_ok (by omega)]
      rw [← List.flatMap_append]
      apply ih (passed ++ chunk) left
      · rw [hss, hrs, List.append_assoc]
      · have := List.length_pos_iff.mpr hc
        rw [hrs, List.length_append] at ht
        omega
      · rw [toNat_add_ofNat (by omega)]
        exact hn
      · exact hst'
      · exact hh'
      · exact hlg'

/-- The loop counts what it has collected in a word. -/
theorem length_readAllLoop {serve : UInt64 → σ → Result Bytes × σ} {turns : Nat} {out data : Bytes}
    {s s' : σ} (ho : out.length = offset.toNat)
    (h : readAllLoop serve count turns offset out s = some (.ok data, s')) :
    data.length < 2 ^ 64 := by
  induction turns generalizing offset out s with
  | zero => cases h
  | succ turns ih =>
    unfold readAllLoop at h
    split at h
    · cases h
    · next read s₁ hr =>
      split at h
      · cases h
        rw [ho]
        exact offset.toNat_lt
      · split at h
        · cases h
        · next hl =>
          unfold checkedAdvanceOffset at h
          rw [UInt64.toNat_ofNat_of_lt' (show read.length < 2 ^ 64 by omega)] at h
          split at h
          · cases h
          · next next hn =>
            split at hn
            · next hrm =>
              cases hn
              refine ih ?_ h
              rw [List.length_append, ho, toNat_add_ofNat hrm]
            · cases hn

/-- Reading a directory from the start to the end yields its entries, each once and in order,
through reads that are all accepted and answered in whole entries. -/
theorem readAll_directory (hencode : ∀ s ∈ stats, ∃ data, s.encode = .ok data)
    (hcount : ∀ s ∈ stats, ∀ data, s.encode = .ok data → data.length ≤ count.toNat)
    (hsize : (stats.flatMap bytes).length < 2 ^ 64)
    (hopen : validateRead state 0 = .ok ()) (turns : Nat) (hturns : stats.length < turns) :
    ∃ data state' log, readAll (recorded (serveDirectory stats count)) count turns (state, [])
        = some (.ok data, state', log) ∧
      decodeDirEntries data = .ok stats ∧ ∀ sent ∈ log, sent.Whole stats count := by
  have hsh : ∀ s ∈ stats, ShortLength s.body := by
    intro s hs
    obtain ⟨data, hd⟩ := hencode s hs
    exact ((s.encode_ok_iff data).mp hd).1
  have hft : ∀ s ∈ stats, s.bytes.length ≤ count.toNat := by
    intro s hs
    exact hcount s hs _ ((s.encode_ok_iff _).mpr ⟨hsh s hs, rfl⟩)
  obtain ⟨state', log, hr, hlg⟩ := readAllLoop_directory hsh hft hsize [] stats turns []
    rfl hturns rfl hopen hopen nofun
  exact ⟨_, state', log, hr, decodeDirEntries_flatMap hsh, hlg⟩

/-- An entry with the shortest name there is. -/
def plainEntry (name : UInt8) : Stat := ⟨0, 0, ⟨0, 0, 0⟩, 0, 0, 0, 0, [name], [], [], []⟩

/-- A directory open for reading, left in the middle by an earlier read. -/
def openDirectory : FidState := ⟨⟨QTDIR, 0, 1⟩, some Mode.OREAD, 7⟩

theorem encode_plainEntry (name : UInt8) : (plainEntry name).encode = .ok (plainEntry name).bytes ∧
      (plainEntry name).bytes.length = 50 := by
  have hl : (plainEntry name).body.length = 48 := rfl
  refine ⟨((plainEntry name).encode_ok_iff _).mpr ⟨?_, rfl⟩, ?_⟩
  · show (plainEntry name).body.length < 2 ^ 16
    omega
  · rw [Stat.length_bytes, hl]

theorem readAll_directory_pages : ∃ data state' log,
    readAll (recorded (serveDirectory [plainEntry 97, plainEntry 98, plainEntry 99] 120)) 120 4
      (openDirectory, []) = some (.ok data, state', log) ∧
    decodeDirEntries data = .ok [plainEntry 97, plainEntry 98, plainEntry 99] ∧
    ∀ sent ∈ log, sent.Whole [plainEntry 97, plainEntry 98, plainEntry 99] 120 := by
  have hm : ∀ s ∈ [plainEntry 97, plainEntry 98, plainEntry 99], ∃ name, s = plainEntry name := by
    simp
  apply readAll_directory
  · intro s hs
    obtain ⟨name, rfl⟩ := hm s hs
    exact ⟨_, (encode_plainEntry name).1⟩
  · intro s hs data hd
    obtain ⟨name, rfl⟩ := hm s hs
    rw [(encode_plainEntry name).1] at hd
    cases hd
    rw [(encode_plainEntry name).2]
    decide
  · decide +kernel
  · decide
  · decide

/-- A directory of more bytes than an offset counts is not read to its end, small as its
entries are. -/
theorem readAll_overflows : ∃ (stats : List Stat) (count : UInt32) (state : FidState),
    (∀ s ∈ stats, ∃ data, s.encode = .ok data) ∧
    (∀ s ∈ stats, ∀ data, s.encode = .ok data → data.length ≤ count.toNat) ∧
    validateRead state 0 = .ok () ∧ state.qid.isDir ∧
    ∀ turns data state' log, readAll (recorded (serveDirectory stats count)) count turns (state, [])
        = some (.ok data, state', log) → decodeDirEntries data ≠ .ok stats := by
  refine ⟨List.replicate (2 ^ 64) (plainEntry 97), 120, openDirectory, ?_, ?_, by decide, by decide,
    ?_⟩
  · intro s hs
    rw [List.eq_of_mem_replicate hs]
    exact ⟨_, (encode_plainEntry 97).1⟩
  · intro s hs data hd
    rw [List.eq_of_mem_replicate hs, (encode_plainEntry 97).1] at hd
    cases hd
    rw [(encode_plainEntry 97).2]
    decide
  · intro turns data state' log hr hdc
    have hlt : data.length < 2 ^ 64 := length_readAllLoop rfl hr
    have hl : data.length = 2 ^ 64 * 50 := by
      rw [bytes_of_decodeDirEntries hdc, List.length_flatMap, List.map_replicate,
        (encode_plainEntry 97).2, List.sum_replicate_nat]
    omega

end R9P.Client
