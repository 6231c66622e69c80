import R9P.Client.Paging
import R9P.Session.Error

/-!
# Transfers in pieces

Library `Client`. The loops of `client_support.rs` that write data in chunks and read up to a
delimiter, over any operation that performs one write or one read, with the copy of the second in
`session/src/opened_fid.rs`. What such an operation answers may depend on all that went before.
-/

namespace R9P.Client
open Base Wire Session.Errno

/-! ### Writing -/

/-- A write that was issued, and its answer. -/
structure Piece where
  offset : UInt64
  bytes : Bytes
  answer : Result UInt32

/-- An operation that performs one write, with the writes before it. -/
abbrev WriteOnce : Type := List Piece → UInt64 → Bytes → Result UInt32

/-- How many bytes of a piece were acknowledged. -/
def Piece.count (piece : Piece) : Nat :=
  match piece.answer with
  | .ok count => count.toNat
  | .error _ => 0

/-- The bytes that were acknowledged. -/
def acknowledged (pieces : List Piece) : Bytes :=
  pieces.flatMap fun piece => piece.bytes.take piece.count

/-- `client_support.rs:65`. -/
def checkedWriteCount (count : UInt32) (requested : Nat) : Result UInt32 :=
  if requested < count.toNat then
    .error (.fromStatic "9P server reported more bytes written than requested")
  else .ok count

/-- The loop of `client_support.rs:138`, with the writes issued so far. -/
def writeLoop (max : Nat) (writeOnce : WriteOnce) (offset : UInt64) (data : Bytes)
    (total : UInt32) (pieces : List Piece) : Result UInt32 × List Piece :=
  if data = [] then (.ok total, pieces)
  else
    let answer := writeOnce pieces offset (data.take max)
    let pieces := pieces ++ [⟨offset, data.take max, answer⟩]
    match answer with
    | .error e => (.error e, pieces)
    | .ok count =>
      if count = 0 then (.error (.fromStatic "zero-length 9P write progress"), pieces)
      else
        match checkedWriteCount count (data.take max).length with
        | .error e => (.error e, pieces)
        | .ok _ =>
          if 2 ^ 32 ≤ total.toNat + count.toNat then
            (.error (.fromStatic "aggregate write count overflow"), pieces)
          else
            match checkedAdvanceOffset offset count.toUInt64 with
            | .error e => (.error e, pieces)
            | .ok next =>
              if count.toNat < (data.take max).length then (.ok (total + count), pieces)
              else writeLoop max writeOnce next (data.drop count.toNat) (total + count) pieces
termination_by data.length
decreasing_by
  have := List.length_pos_of_ne_nil ‹¬data = []›
  have : count.toNat ≠ 0 := fun h => ‹¬count = 0› (UInt32.toNat_inj.mp h)
  grind

/-- `client_support.rs:123`. -/
def writeInChunks (maxWritePayload : UInt32) (offset : UInt64) (data : Bytes)
    (writeOnce : WriteOnce) : Result UInt32 × List Piece :=
  if data.isEmpty then
    let answer := writeOnce [] offset data
    (answer, [⟨offset, data, answer⟩])
  else writeLoop maxWritePayload.toNat writeOnce offset data 0 []

/-- The pieces are parts of the data in order, each behind all that was acknowledged before it and
with the answer of the operation. Only the last may have been acknowledged in part. -/
def Placed (max : Nat) (writeOnce : WriteOnce) (offset : UInt64) (data : Bytes)
    (pieces : List Piece) : Prop :=
  ∀ i (h : i < pieces.length),
    pieces[i].offset.toNat = offset.toNat + (acknowledged (pieces.take i)).length ∧
    pieces[i].bytes = (data.drop (acknowledged (pieces.take i)).length).take max ∧
    pieces[i].bytes ≠ [] ∧
    pieces[i].answer = writeOnce (pieces.take i) pieces[i].offset pieces[i].bytes ∧
    (i + 1 < pieces.length → pieces[i].count = pieces[i].bytes.length)

/-- A number of bytes that is returned is what was acknowledged of the data, from its start on. It
is all of the data, or else a piece was acknowledged in part. -/
def Reports (data : Bytes) (pieces : List Piece) (n : Nat) : Prop :=
  acknowledged pieces = data.take n ∧ n ≤ data.length ∧
    (n < data.length → ∃ piece ∈ pieces, piece.count < piece.bytes.length)

/-- What the loop has done before it turns to the rest of the data. -/
structure Writing (max : Nat) (writeOnce : WriteOnce) (start : UInt64) (whole : Bytes)
    (offset : UInt64) (data : Bytes) (total : UInt32) (pieces : List Piece) : Prop where
  placed : Placed max writeOnce start whole pieces
  full : ∀ piece ∈ pieces, piece.count = piece.bytes.length
  whole : whole = acknowledged pieces ++ data
  offset : offset.toNat = start.toNat + (acknowledged pieces).length
  total : total.toNat = (acknowledged pieces).length

section
variable {max : Nat} {writeOnce : WriteOnce} {start offset : UInt64} {whole data : Bytes}
  {total count : UInt32} {pieces : List Piece}

/-- One more piece adds the bytes of it that were acknowledged. -/
@[simp]
theorem acknowledged_append (pieces : List Piece) (piece : Piece) :
    acknowledged (pieces ++ [piece]) = acknowledged pieces ++ piece.bytes.take piece.count := by
  simp [acknowledged]

private theorem le_of_checkedWriteCount {n : UInt32} {requested : Nat}
    (h : checkedWriteCount count requested = .ok n) : count.toNat ≤ requested := by
  unfold checkedWriteCount at h
  split at h
  · cases h
  · omega

private theorem toNat_of_checkedAdvanceOffset {n next : UInt64}
    (h : checkedAdvanceOffset offset n = .ok next) : next.toNat = offset.toNat + n.toNat := by
  unfold checkedAdvanceOffset at h
  split at h
  · obtain rfl := Except.ok.inj h
    rw [UInt64.toNat_add, Nat.mod_eq_of_lt ‹_›]
  · cases h

variable (h : Writing max writeOnce start whole offset data total pieces)
include h

/-- The next piece. -/
private theorem Writing.piece (hm : 0 < max) (hd : ¬data = []) :
    Placed max writeOnce start whole
      (pieces ++ [⟨offset, data.take max, writeOnce pieces offset (data.take max)⟩]) := by
  intro i hi
  rcases Nat.lt_or_ge i pieces.length with hlt | hge
  · obtain ⟨ho, hb, hne, ha, -⟩ := h.placed i hlt
    simp only [List.getElem_append_left hlt, List.take_append_of_le_length hlt.le]
    exact ⟨ho, hb, hne, ha, fun _ => h.full _ (List.getElem_mem hlt)⟩
  · obtain rfl : i = pieces.length := by
      simp only [List.length_append, List.length_singleton] at hi
      omega
    simp only [List.getElem_concat_length, List.take_left]
    refine ⟨h.offset, ?_, ?_, trivial, fun hlt => ?_⟩
    · rw [h.whole, List.drop_left]
    · simp [hd, hm.ne']
    · simp at hlt

/-- The bytes acknowledged after one more piece. -/
private theorem Writing.acknowledges (hc : count.toNat ≤ (data.take max).length)
    (ht : ¬2 ^ 32 ≤ total.toNat + count.toNat) :
    acknowledged (pieces ++ [⟨offset, data.take max, .ok count⟩]) =
      acknowledged pieces ++ data.take count.toNat ∧
    (total + count).toNat = (acknowledged pieces).length + count.toNat := by
  rw [List.length_take] at hc
  rw [acknowledged_append, UInt32.toNat_add, Nat.mod_eq_of_lt (Nat.not_le.mp ht), h.total]
  refine ⟨?_, rfl⟩
  show _ ++ (data.take max).take count.toNat = _
  rw [List.take_take, Nat.min_eq_left (by omega)]

/-- A piece that was acknowledged as a whole leaves the rest. -/
private theorem Writing.next (hm : 0 < max) (hd : ¬data = []) {next : UInt64}
    (ha : writeOnce pieces offset (data.take max) = .ok count)
    (hc : count.toNat = (data.take max).length) (ht : ¬2 ^ 32 ≤ total.toNat + count.toNat)
    (hn : checkedAdvanceOffset offset count.toUInt64 = .ok next) :
    Writing max writeOnce start whole next (data.drop count.toNat) (total + count)
      (pieces ++ [⟨offset, data.take max, .ok count⟩]) := by
  obtain ⟨hak, hs⟩ := h.acknowledges hc.le ht
  have ho := toNat_of_checkedAdvanceOffset hn
  rw [UInt32.toNat_toUInt64, h.offset] at ho
  have hl : (data.take count.toNat).length = count.toNat := by
    rw [List.length_take] at hc ⊢
    omega
  refine ⟨ha ▸ h.piece hm hd, ?_, ?_, ?_, ?_⟩
  · intro piece hp
    rcases List.mem_append.mp hp with hp | hp
    · exact h.full piece hp
    · rw [List.mem_singleton.mp hp]
      exact hc
  · rw [hak, h.whole, List.append_assoc, List.take_append_drop]
  · rw [hak, List.length_append, hl, ho]
    omega
  · rw [hak, List.length_append, hl, hs]

/-- A piece that was acknowledged in part is the last one. -/
private theorem Writing.short (hc : count.toNat < (data.take max).length)
    (ht : ¬2 ^ 32 ≤ total.toNat + count.toNat) :
    Reports whole (pieces ++ [⟨offset, data.take max, .ok count⟩]) (total + count).toNat := by
  obtain ⟨ha, hs⟩ := h.acknowledges hc.le ht
  refine ⟨?_, ?_, fun _ => ⟨_, List.mem_append_right _ (List.mem_singleton_self _), hc⟩⟩
  · rw [ha, hs, h.whole, List.take_length_add_append]
  · rw [List.length_take] at hc
    rw [hs, h.whole, List.length_append]
    omega

/-- The loop places what is left of the data, and reports what was acknowledged. -/
private theorem writeLoop_reports (hm : 0 < max) :
    Placed max writeOnce start whole (writeLoop max writeOnce offset data total pieces).2 ∧
    ∀ n, (writeLoop max writeOnce offset data total pieces).1 = .ok n →
      Reports whole (writeLoop max writeOnce offset data total pieces).2 n.toNat := by
  fun_induction writeLoop max writeOnce offset data total pieces with
  | case1 =>
    refine ⟨h.placed, fun n hn => ?_⟩
    obtain rfl := Except.ok.inj hn
    have hw := h.whole
    rw [List.append_nil] at hw
    rw [Reports, h.total, hw, List.take_length]
    exact ⟨rfl, le_rfl, fun hlt => absurd hlt (Nat.lt_irrefl _)⟩
  | case2 | case3 | case4 | case5 | case6 => exact ⟨h.piece hm ‹_›, by simp⟩
  | case7 offset data total pieces _ answer issued count ha _ _ _ ht _ _ hs =>
    refine ⟨h.piece hm ‹_›, fun n hn => ?_⟩
    obtain rfl := Except.ok.inj hn
    subst issued
    rw [ha]
    exact h.short hs ht
  | case8 offset data total pieces hd answer issued count ha _ _ hc ht next hn hf ih =>
    subst issued
    have hcn := Nat.le_antisymm (le_of_checkedWriteCount hc) (Nat.not_lt.mp hf)
    have hnx := h.next hm hd ha hcn ht hn
    rw [ha] at ih ⊢
    exact ih hnx

end

/-- Chunked writes place the data where the caller asked, and the number returned is what was
acknowledged of it. Where there is no data, one write without bytes is issued and its answer
returned. -/
theorem writeInChunks_places (maxWritePayload : UInt32) (hm : 1 ≤ maxWritePayload.toNat)
    (offset : UInt64) (data : Bytes) (writeOnce : WriteOnce) :
    (data = [] → writeInChunks maxWritePayload offset data writeOnce =
      (writeOnce [] offset [], [⟨offset, [], writeOnce [] offset []⟩])) ∧
    (data ≠ [] → Placed maxWritePayload.toNat writeOnce offset data
        (writeInChunks maxWritePayload offset data writeOnce).2 ∧
      ∀ n, (writeInChunks maxWritePayload offset data writeOnce).1 = .ok n →
        Reports data (writeInChunks maxWritePayload offset data writeOnce).2 n.toNat) := by
  unfold writeInChunks
  cases data with
  | nil => exact ⟨fun _ => rfl, fun hne => absurd rfl hne⟩
  | cons b data =>
    refine ⟨fun he => absurd he (List.cons_ne_nil b data), fun _ => writeLoop_reports ?_ hm⟩
    exact ⟨fun i hi => absurd hi (Nat.not_lt_zero i), List.forall_mem_nil _, rfl, rfl, rfl⟩

theorem writeInChunks_places_three :
    Reports [1, 2, 3] (writeInChunks 2 7 [1, 2, 3] fun _ _ c => .ok c.length.toUInt32).2 3 :=
  ((writeInChunks_places 2 (by decide) 7 [1, 2, 3] _).2 (by decide)).2 3 (by
    simp [writeInChunks, writeLoop, checkedWriteCount, checkedAdvanceOffset])

/-- Without data a write without bytes is issued. -/
theorem empty_piece_issued : (writeInChunks 2 7 [] fun _ _ chunk =>
    if chunk = [] then .error (.fromStatic "empty") else .ok 1).2.map Piece.bytes = [[]] := rfl

/-! ### Reading up to a delimiter -/

/-- An operation that performs one read, with what was read before. -/
abbrev ReadOnce (ε : Type) : Type := List Bytes → UInt64 → UInt32 → Except ε Bytes

theorem toNat_ofNat_sub (a : UInt32) (n : Nat) : (UInt32.ofNat (a.toNat - n)).toNat = a.toNat - n :=
  UInt32.toNat_ofNat_of_lt' ((Nat.sub_le ..).trans_lt a.toNat_lt)

/-- The loop of both copies, with what was read so far. -/
def delimitedLoop {ε : Type} (fail : Int → String → ε) (delimiter : UInt8) (readOnce : ReadOnce ε)
    (offset : UInt64) (remaining : UInt32) (out : List Bytes) : Except ε Bytes :=
  if remaining = 0 then
    .error (fail EMSGSIZE "9P read reached its byte bound before the record delimiter")
  else
    match readOnce out offset remaining with
    | .error e => .error e
    | .ok data =>
      if data = [] then
        .error (fail EIO "9P read reached EOF before the record delimiter")
      else
        match data.findIdx? (· == delimiter) with
        | some position =>
          if position + 1 ≠ data.length then
            .error (fail EPROTO "9P read returned bytes after the record delimiter")
          else .ok (out ++ [data]).flatten
        | none =>
          if 2 ^ 32 ≤ data.length then .error (fail EOVERFLOW "read count overflow")
          else if 2 ^ 64 ≤ offset.toNat + data.length then
            .error (fail EOVERFLOW "9P offset overflow")
          else
            delimitedLoop fail delimiter readOnce (offset + .ofNat data.length)
              (.ofNat (remaining.toNat - data.length)) (out ++ [data])
termination_by remaining.toNat
decreasing_by
  have := List.length_pos_of_ne_nil ‹¬data = []›
  have : remaining.toNat ≠ 0 := fun h => ‹¬remaining = 0› (UInt32.toNat_inj.mp h)
  rw [toNat_ofNat_sub]
  omega

/-- Both copies, from their first check on. -/
def delimitedWith {ε : Type} (fail : Int → String → ε) (offset : UInt64) (count : UInt32)
    (delimiter : UInt8) (readOnce : ReadOnce ε) : Except ε Bytes :=
  if count = 0 then
    .error (fail EINVAL "delimiter-terminated 9P read requires a nonzero byte bound")
  else delimitedLoop fail delimiter readOnce offset count []

/-- `client_support.rs:80`. -/
def readDelimitedWith (offset : UInt64) (count : UInt32) (delimiter : UInt8)
    (readOnce : ReadOnce Error) : Result Bytes :=
  delimitedWith (fun _ text => .fromStatic text) offset count delimiter
    fun out offset remaining => readOnce out offset remaining >>= (checkedReadData · remaining)

/-- `session/src/opened_fid.rs:311`. -/
def OpenedFid.readDelimitedWith :
    UInt64 → UInt32 → UInt8 → ReadOnce Session.Error → Except Session.Error Bytes :=
  delimitedWith fun errno text => ⟨errno, utf8 text⟩

/-- The bytes up to and including the first delimiter. -/
def firstRecord (delimiter : UInt8) (bytes : Bytes) : Option Bytes :=
  (bytes.findIdx? (· == delimiter)).map fun i => bytes.take (i + 1)

theorem firstRecord_append (delimiter : UInt8) (data rest : Bytes) :
    firstRecord delimiter (data ++ rest) =
      match data.findIdx? (· == delimiter) with
      | some position => some (data.take (position + 1))
      | none => (firstRecord delimiter rest).map (data ++ ·) := by
  unfold firstRecord
  rw [List.findIdx?_append]
  cases h : data.findIdx? (· == delimiter) with
  | some position =>
    have := (List.findIdx?_eq_some_iff_findIdx_eq.mp h).1
    grind
  | none =>
    cases rest.findIdx? (· == delimiter) with
    | none => rfl
    | some position =>
      have hn : position + data.length + 1 = data.length + (position + 1) := by omega
      simp [hn, List.take_length_add_append]

section
variable {ε ε' : Type} {fail : Int → String → ε} {fail' : Int → String → ε'}
  {readOnce : ReadOnce ε} {readOnce' : ReadOnce ε'} {delimiter : UInt8} {offset : UInt64}
  {remaining : UInt32} {out : List Bytes} {content r : Bytes}

/-- What the loop returns ends with the first delimiter behind the offset. -/
theorem delimitedLoop_firstRecord (hr : ∀ out offset n data, readOnce out offset n = .ok data →
      data <+: content.drop offset.toNat ∧ data.length ≤ n.toNat)
    (h : delimitedLoop fail delimiter readOnce offset remaining out = .ok r) :
    ∃ record, r = out.flatten ++ record ∧ record.length ≤ remaining.toNat ∧
      firstRecord delimiter (content.drop offset.toNat) = some record := by
  fun_induction delimitedLoop fail delimiter readOnce offset remaining out with
  | case1 | case2 | case3 | case4 | case6 | case7 => cases h
  | case5 offset remaining out _ data hd _ position hp hl =>
    obtain ⟨⟨rest, hrest⟩, hle⟩ := hr _ _ _ _ hd
    obtain rfl := Except.ok.inj h
    refine ⟨data, by simp, hle, ?_⟩
    grind [firstRecord_append]
  | case8 offset remaining out _ data hd _ hp _ ho ih =>
    obtain ⟨⟨rest, hrest⟩, hle⟩ := hr _ _ _ _ hd
    obtain ⟨record, rfl, hl, hf⟩ := ih h
    have hn : (offset + .ofNat data.length).toNat = offset.toNat + data.length := by
      rw [UInt64.toNat_add, UInt64.toNat_ofNat_of_lt' (by grind), Nat.mod_eq_of_lt (by grind)]
    rw [hn, ← List.drop_drop, ← hrest, List.drop_left] at hf
    rw [toNat_ofNat_sub] at hl
    refine ⟨data ++ record, by simp, by grind, ?_⟩
    rw [← hrest, firstRecord_append, hp, hf]
    rfl

/-- Loops that make the same reads return the same. -/
theorem delimitedLoop_toOption
    (hs : ∀ out offset n, (readOnce out offset n).toOption = (readOnce' out offset n).toOption) :
    (delimitedLoop fail delimiter readOnce offset remaining out).toOption =
      (delimitedLoop fail' delimiter readOnce' offset remaining out).toOption := by
  fun_induction delimitedLoop fail delimiter readOnce offset remaining out with
  | case1 =>
    rw [delimitedLoop]
    rfl
  | case2 offset remaining out | case3 offset remaining out | case4 offset remaining out
  | case5 offset remaining out | case6 offset remaining out | case7 offset remaining out
  | case8 offset remaining out =>
    conv_rhs => rw [delimitedLoop]
    cases h : readOnce' out offset remaining with
    | error e => grind [Except.toOption]
    | ok data => grind [Except.toOption]

end

/-- A delimited read returns the first record of the content, within its bound, and both copies
return the same of the same reads. -/
theorem readDelimitedWith_first (offset : UInt64) (count : UInt32) (delimiter : UInt8)
    (content : Bytes) (core : ReadOnce Error) (session : ReadOnce Session.Error)
    (hr : ∀ out offset n data, core out offset n = .ok data →
      data <+: content.drop offset.toNat ∧ data.length ≤ n.toNat)
    (hs : ∀ out offset n, (core out offset n).toOption = (session out offset n).toOption) :
    (∀ r, readDelimitedWith offset count delimiter core = .ok r →
      firstRecord delimiter (content.drop offset.toNat) = some r ∧ r.length ≤ count.toNat) ∧
    (readDelimitedWith offset count delimiter core).toOption =
      (OpenedFid.readDelimitedWith offset count delimiter session).toOption := by
  have hc : (fun out offset n => core out offset n >>= (checkedReadData · n)) = core := by
    funext out offset n
    cases h : core out offset n with
    | error e => rfl
    | ok data =>
      have := n.toNat_lt
      show checkedReadData data n = .ok data
      grind [checkedReadData]
  unfold readDelimitedWith OpenedFid.readDelimitedWith delimitedWith
  rw [hc]
  split
  · exact ⟨nofun, rfl⟩
  · refine ⟨fun r h => ?_, delimitedLoop_toOption hs⟩
    obtain ⟨record, rfl, hl, hf⟩ := delimitedLoop_firstRecord hr h
    exact ⟨hf, hl⟩

theorem readDelimitedWith_first_bytewise : (OpenedFid.readDelimitedWith 0 8 10 fun _ offset n =>
      .ok (([1, 10, 2].drop offset.toNat).take (min 1 n.toNat))).toOption = some [1, 10] := by
  rw [← (readDelimitedWith_first 0 8 10 [1, 10, 2] (fun _ offset n =>
    .ok (([1, 10, 2].drop offset.toNat).take (min 1 n.toNat))) _ (fun _ _ n data h => by
      obtain rfl := Except.ok.inj h
      exact ⟨List.take_prefix .., by grind⟩) fun _ _ _ => rfl).2]
  simp [readDelimitedWith, delimitedWith, delimitedLoop, checkedReadData, bind, Except.bind,
    Except.toOption]

end R9P.Client
