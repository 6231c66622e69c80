import R9P.Wire.Layout

/-!
# Directory contents

Library `Wire`. A directory read returns whole stat records, cut at record boundaries by
`dirread_chunk`; the reader takes them apart with `decode_dir_entries`
(`crates/core/src/stat.rs`). What is read back is a part of the directory, in order.
-/

namespace R9P.Wire
open Base
open List (flatMap_cons length_append)
open Stat (bytes)

/-- `u64::saturating_add`. -/
def saturatingAdd (a b : UInt64) : UInt64 :=
  if a.toNat + b.toNat < 2 ^ 64 then a + b else 0xffffffffffffffff

/-- The loop of `dirread_chunk`; `stat.rs:117`. -/
def dirreadLoop (offset : UInt64) (limit : Nat) : List Stat → Bytes → UInt64 → Result Bytes
  | [], out, _ => .ok out
  | stat :: stats, out, position => do
    let encoded ← stat.encode
    let next := saturatingAdd position (UInt64.ofNat encoded.length)
    if next ≤ offset then dirreadLoop offset limit stats out next
    else if position < offset then .ok out
    else if out.length + encoded.length > limit then .ok out
    else dirreadLoop offset limit stats (out ++ encoded) next

/-- The records from a byte offset on that fit in a count; `stat.rs:113`. -/
def dirreadChunk (stats : List Stat) (offset : UInt64) (count : UInt32) : Result Bytes :=
  dirreadLoop offset count.toNat stats [] 0

/-- The loop of `decode_dir_entries`; `stat.rs:140`. Every turn consumes at least the two
bytes of a size, so the length of the data bounds the number of turns. -/
def decodeDirLoop : Nat → Bytes → Result (List Stat)
  | 0, _ => .ok []
  | turns + 1, data =>
    if data.isEmpty then .ok []
    else if data.length < 2 then .error (.fromStatic "truncated directory stat")
    else
      let size := ofLeBytes (data.take 2)
      if data.length < size + 2 then .error (.fromStatic "truncated directory stat")
      else do
        let entry ← Stat.decode (data.take (size + 2))
        let entries ← decodeDirLoop turns (data.drop (size + 2))
        .ok (entry :: entries)

/-- Take a directory's contents apart; `stat.rs:137`. -/
def decodeDirEntries (data : Bytes) : Result (List Stat) := decodeDirLoop data.length data

theorem Stat.length_bytes (s : Stat) : s.bytes.length = s.body.length + 2 := by
  rw [bytes, stringBytes, length_append, length_leBytes]
  omega

variable {offset position : UInt64} {limit : Nat} {data : Bytes}

-- A chunk already holds whole records; the loop only ever appends records to it.
private theorem dirreadLoop_ok {stats : List Stat} {out : Bytes}
    (h : dirreadLoop offset limit stats out position = .ok data) :
    ∃ chunk : List Stat, chunk.Sublist stats ∧ (∀ s ∈ chunk, ShortLength s.body) ∧
      data = out ++ chunk.flatMap bytes := by
  induction stats generalizing out position with
  | nil =>
    cases h
    exact ⟨[], .slnil, by simp, by simp⟩
  | cons stat stats ih =>
    have hst : ∃ chunk : List Stat, chunk.Sublist (stat :: stats) ∧
        (∀ s ∈ chunk, ShortLength s.body) ∧ out = out ++ chunk.flatMap bytes :=
      ⟨[], List.nil_sublist _, by simp, by simp⟩
    rw [dirreadLoop, bind_ok] at h
    obtain ⟨encoded, he, h⟩ := h
    obtain ⟨hs, rfl⟩ := (Stat.encode_ok_iff stat encoded).mp he
    dsimp only at h
    split at h
    · obtain ⟨chunk, hsb, hok, hd⟩ := ih h
      exact ⟨chunk, hsb.cons stat, hok, hd⟩
    · split at h
      · rw [← Except.ok.inj h]
        exact hst
      · split at h
        · rw [← Except.ok.inj h]
          exact hst
        · obtain ⟨chunk, hsb, hok, hd⟩ := ih h
          refine ⟨stat :: chunk, hsb.cons_cons stat, ?_, ?_⟩
          · intro s hm
            rcases List.mem_cons.mp hm with rfl | hm
            · exact hs
            · exact hok s hm
          · rw [hd, flatMap_cons, List.append_assoc]

-- Each record announces its own size, so the next record starts right behind it.
private theorem decodeDirLoop_flatMap (chunk : List Stat) (h : ∀ s ∈ chunk, ShortLength s.body)
    (turns : Nat) (htr : (chunk.flatMap bytes).length ≤ turns) :
    decodeDirLoop turns (chunk.flatMap bytes) = .ok chunk := by
  induction chunk generalizing turns with
  | nil =>
    cases turns with
    | zero | succ turns => rfl
  | cons s chunk ih =>
    have hs : ShortLength s.body := h s List.mem_cons_self
    have hln := s.length_bytes
    rw [flatMap_cons, length_append, hln] at htr
    cases turns with
    | zero => omega
    | succ turns =>
      have hsz : ofLeBytes ((s.bytes ++ chunk.flatMap bytes).take 2) = s.body.length := by
        rw [bytes, stringBytes, List.append_assoc,
          List.take_left' (length_leBytes 2 _), ofLeBytes_leBytes 2 _ hs]
      have hd : Stat.decode s.bytes = .ok s := (Stat.decode_ok_iff _ s).mpr ⟨hs, rfl⟩
      have hr := ih (fun t ht => h t (List.mem_cons_of_mem s ht)) turns (by omega)
      rw [flatMap_cons, decodeDirLoop, if_neg, if_neg, hsz, if_neg, ← hln,
        List.take_left' rfl, List.drop_left' rfl, hd, hr]
      · rfl
      · rw [length_append, hln]
        omega
      · rw [length_append, hln]
        omega
      · rw [List.isEmpty_iff_length_eq_zero, length_append, hln]
        omega

variable {entries : List Stat}

/-- Whole records decode to themselves. -/
theorem decodeDirEntries_flatMap (h : ∀ s ∈ entries, ShortLength s.body) :
    decodeDirEntries (entries.flatMap bytes) = .ok entries :=
  decodeDirLoop_flatMap entries h _ (Nat.le_refl _)

/-- What a reader decodes from a chunk are entries of the directory, in order. -/
theorem decodeDirEntries_dirreadChunk {stats : List Stat} {count : UInt32}
    (h : dirreadChunk stats offset count = .ok data) :
    ∃ entries, decodeDirEntries data = .ok entries ∧ entries.Sublist stats := by
  obtain ⟨chunk, hsb, hok, hd⟩ := dirreadLoop_ok h
  refine ⟨chunk, ?_, hsb⟩
  rw [hd]
  exact decodeDirEntries_flatMap hok

/-! ### Reading from a record boundary -/

theorem toNat_saturatingAdd {a : UInt64} {n : Nat} (h : a.toNat + n < 2 ^ 64) :
    (saturatingAdd a (UInt64.ofNat n)).toNat = a.toNat + n := by
  have hn : (UInt64.ofNat n).toNat = n := by
    rw [UInt64.toNat_ofNat']
    omega
  rw [saturatingAdd, hn, if_pos h, UInt64.toNat_add, hn]
  omega

-- Records that end at or before the offset are passed over.
private theorem dirreadLoop_skip {out : Bytes}
    (passed rest : List Stat) (hp : ∀ s ∈ passed, ShortLength s.body)
    (ho : position.toNat + (passed.flatMap bytes).length = offset.toNat) :
    dirreadLoop offset limit (passed ++ rest) out position =
      dirreadLoop offset limit rest out offset := by
  induction passed generalizing position with
  | nil =>
    have hs : position = offset := UInt64.toNat_inj.mp ho
    rw [hs]
    rfl
  | cons s passed ih =>
    rw [flatMap_cons, length_append] at ho
    have he : s.encode = .ok s.bytes :=
      (Stat.encode_ok_iff s s.bytes).mpr ⟨hp s List.mem_cons_self, rfl⟩
    have hlt : offset.toNat < 2 ^ 64 := offset.toNat_lt
    have hn : (saturatingAdd position (UInt64.ofNat s.bytes.length)).toNat =
        position.toNat + s.bytes.length := toNat_saturatingAdd (by omega)
    have hle : saturatingAdd position (UInt64.ofNat s.bytes.length) ≤ offset := by
      rw [UInt64.le_iff_toNat_le, hn]
      omega
    rw [List.cons_append, dirreadLoop, he]
    change (if saturatingAdd position (UInt64.ofNat s.bytes.length) ≤ offset then _ else _) = _
    rw [if_pos hle]
    apply ih (fun t ht => hp t (List.mem_cons_of_mem s ht))
    omega

-- From the offset on, records are taken as long as they fit.
private theorem dirreadLoop_take (out : Bytes) (rest : List Stat)
    (hr : ∀ s ∈ rest, ShortLength s.body) (hp : offset.toNat ≤ position.toNat)
    (hsz : position.toNat + (rest.flatMap bytes).length < 2 ^ 64) (ho : out.length ≤ limit) :
    ∃ chunk left, rest = chunk ++ left ∧
      dirreadLoop offset limit rest out position = .ok (out ++ chunk.flatMap bytes) ∧
      out.length + (chunk.flatMap bytes).length ≤ limit ∧
      ∀ s ∈ left.head?, limit < out.length + (chunk.flatMap bytes).length + s.bytes.length :=
        by
  induction rest generalizing position out with
  | nil => exact ⟨[], [], rfl, by simp [dirreadLoop], by simpa using ho, nofun⟩
  | cons s rest ih =>
    rw [flatMap_cons, length_append] at hsz
    have hln := s.length_bytes
    have he : s.encode = .ok s.bytes :=
      (Stat.encode_ok_iff s s.bytes).mpr ⟨hr s List.mem_cons_self, rfl⟩
    have hn : (saturatingAdd position (UInt64.ofNat s.bytes.length)).toNat =
        position.toNat + s.bytes.length := toNat_saturatingAdd (by omega)
    have hb : ¬ saturatingAdd position (UInt64.ofNat s.bytes.length) ≤ offset := by
      rw [UInt64.le_iff_toNat_le, hn]
      omega
    have ha : ¬ position < offset := by
      rw [UInt64.lt_iff_toNat_lt]
      omega
    have hl : dirreadLoop offset limit (s :: rest) out position =
        if out.length + s.bytes.length > limit then .ok out
        else dirreadLoop offset limit rest (out ++ s.bytes)
          (saturatingAdd position (UInt64.ofNat s.bytes.length)) := by
      rw [dirreadLoop, he]
      change (if saturatingAdd position (UInt64.ofNat s.bytes.length) ≤ offset then _ else _) = _
      rw [if_neg hb, if_neg ha]
    by_cases hf : out.length + s.bytes.length > limit
    · rw [if_pos hf] at hl
      refine ⟨[], s :: rest, rfl, by simpa using hl, by simpa using ho, ?_⟩
      intro t ht
      cases ht
      simpa using hf
    · rw [if_neg hf] at hl
      have hg : (out ++ s.bytes).length ≤ limit := by
        rw [length_append]
        omega
      have hlr : offset.toNat ≤
          (saturatingAdd position (UInt64.ofNat s.bytes.length)).toNat := by omega
      obtain ⟨chunk, left, hsp, hok, hft, hst⟩ := ih _
        (fun t ht => hr t (List.mem_cons_of_mem s ht)) hlr (by omega) hg
      rw [length_append] at hft hst
      refine ⟨s :: chunk, left, by rw [hsp]; rfl, ?_, ?_, ?_⟩
      · rw [hl, hok, flatMap_cons, List.append_assoc]
      · rw [flatMap_cons, length_append]
        omega
      · intro t ht
        have hlt := hst t ht
        rw [flatMap_cons, length_append]
        omega

/-- From the end of any number of records on, a read returns the next records whole, as many
as the count has room for. -/
theorem dirreadChunk_boundary {passed rest : List Stat} (count : UInt32)
    (hsh : ∀ s ∈ passed ++ rest, ShortLength s.body)
    (hsz : ((passed ++ rest).flatMap bytes).length < 2 ^ 64)
    (ho : offset.toNat = (passed.flatMap bytes).length) :
    ∃ chunk left, rest = chunk ++ left ∧
      dirreadChunk (passed ++ rest) offset count = .ok (chunk.flatMap bytes) ∧
      (chunk.flatMap bytes).length ≤ count.toNat ∧
      ∀ s ∈ left.head?, count.toNat < (chunk.flatMap bytes).length + s.bytes.length := by
  have hp : ∀ s ∈ passed, ShortLength s.body :=
    fun s hs => hsh s (List.mem_append_left rest hs)
  have hr : ∀ s ∈ rest, ShortLength s.body :=
    fun s hs => hsh s (List.mem_append_right passed hs)
  rw [List.flatMap_append, length_append] at hsz
  have hsk : dirreadChunk (passed ++ rest) offset count =
      dirreadLoop offset count.toNat rest [] offset :=
    dirreadLoop_skip passed rest hp (by rw [ho]; exact Nat.zero_add _)
  obtain ⟨chunk, left, hsp, hok, hft, hst⟩ := dirreadLoop_take [] rest hr
    (Nat.le_refl offset.toNat) (by omega) (Nat.zero_le count.toNat)
  refine ⟨chunk, left, hsp, hsk.trans hok, ?_, ?_⟩
  · simpa using hft
  · simpa using hst

-- Whatever decodes is made of the records it decodes to.
private theorem decodeDirLoop_ok {turns : Nat}
    (htr : data.length ≤ turns) (h : decodeDirLoop turns data = .ok entries) :
    data = entries.flatMap bytes := by
  induction turns generalizing data entries with
  | zero =>
    cases h
    exact List.eq_nil_of_length_eq_zero (Nat.le_zero.mp htr)
  | succ turns ih =>
    rw [decodeDirLoop] at h
    split at h
    · next he =>
      cases h
      exact List.isEmpty_iff.mp he
    · split at h
      · cases h
      · dsimp only at h
        split at h
        · cases h
        · rw [bind_ok] at h
          obtain ⟨entry, hen, h⟩ := h
          rw [bind_ok] at h
          obtain ⟨others, ho, h⟩ := h
          cases h
          obtain ⟨-, hb⟩ := (Stat.decode_ok_iff _ entry).mp hen
          have hr := ih (by rw [List.length_drop]; omega) ho
          rw [flatMap_cons, ← hb, ← hr, List.take_append_drop]

theorem bytes_of_decodeDirEntries
    (h : decodeDirEntries data = .ok entries) : data = entries.flatMap bytes :=
  decodeDirLoop_ok (Nat.le_refl _) h

end R9P.Wire
