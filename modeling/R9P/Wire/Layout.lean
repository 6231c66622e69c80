import R9P.Wire.Codec

/-!
# The wire layout of every message

Library `Wire`. `body` and `Fits` state the layout of each of the thirty-one messages
once, as bytes and as the limits of its length prefixes. The encoder of
`crates/core/src/codec.rs` produces exactly this layout and its decoder accepts exactly
this layout, so that encodable messages and accepted frames correspond one to one.
-/

namespace R9P.Wire
open Base
open List (append_assoc append_nil length_append)

/-! ### Field layouts -/

def u16Bytes (value : UInt16) : Bytes := leBytes 2 value.toNat
def u32Bytes (value : UInt32) : Bytes := leBytes 4 value.toNat
def u64Bytes (value : UInt64) : Bytes := leBytes 8 value.toNat

/-- Length-prefixed byte string. -/
def stringBytes (value : Bytes) : Bytes := leBytes 2 value.length ++ value

/-- A length that fits its two-byte prefix. -/
def ShortLength (value : Bytes) : Prop := value.length < 2 ^ 16

def Qid.bytes (q : Qid) : Bytes := q.qtype :: (u32Bytes q.version ++ u64Bytes q.path)

/-- The fields of a stat record, without its size prefix. -/
def Stat.body (s : Stat) : Bytes :=
  u16Bytes s.type ++ (u32Bytes s.dev ++ (s.qid.bytes ++ (u32Bytes s.mode ++ (u32Bytes s.atime ++
    (u32Bytes s.mtime ++ (u64Bytes s.length ++ (stringBytes s.name ++ (stringBytes s.uid ++
      (stringBytes s.gid ++ stringBytes s.muid)))))))))

/-- A stat record behind its own size. -/
def Stat.bytes (s : Stat) : Bytes := stringBytes s.body

def NamespaceReferral.bytes (r : NamespaceReferral) : Bytes :=
  stringBytes r.mountPath ++ (stringBytes r.endpoint ++ (stringBytes r.uname ++
    (stringBytes r.aname ++ (stringBytes r.exportedRoot ++ (stringBytes r.authorityBoundary ++
      (u64Bytes r.generation ++ u64Bytes r.validForMs))))))

/-- A referral that validates and whose strings fit. -/
def NamespaceReferral.Fits (r : NamespaceReferral) : Prop :=
  r.validate = .ok () ∧ ShortLength r.mountPath ∧ ShortLength r.endpoint ∧ ShortLength r.uname ∧
    ShortLength r.aname ∧ ShortLength r.exportedRoot ∧ ShortLength r.authorityBoundary

/-! ### Message layouts -/

/-- The fields of a request behind its header. -/
def TMessage.body : TMessage → Bytes
  | version _ msize v => u32Bytes msize ++ stringBytes v
  | auth _ afid uname aname => u32Bytes afid ++ (stringBytes uname ++ stringBytes aname)
  | attach _ fid afid uname aname =>
    u32Bytes fid ++ (u32Bytes afid ++ (stringBytes uname ++ stringBytes aname))
  | flush _ oldtag => u16Bytes oldtag
  | walk _ fid newfid wnames =>
    u32Bytes fid ++ (u32Bytes newfid ++ (leBytes 2 wnames.length ++ wnames.flatMap stringBytes))
  | .open _ fid mode => u32Bytes fid ++ [mode]
  | create _ fid name perm mode =>
    u32Bytes fid ++ (stringBytes name ++ (u32Bytes perm ++ [mode]))
  | read _ fid offset count => u32Bytes fid ++ (u64Bytes offset ++ u32Bytes count)
  | write _ fid offset data =>
    u32Bytes fid ++ (u64Bytes offset ++ (leBytes 4 data.length ++ data))
  | clunk _ fid | remove _ fid | stat _ fid | referrals _ fid => u32Bytes fid
  | wstat _ fid s => u32Bytes fid ++ stringBytes s.bytes
  | renameAt _ olddirfid oldname newdirfid newname =>
    u32Bytes olddirfid ++ (stringBytes oldname ++ (u32Bytes newdirfid ++ stringBytes newname))

/-- The length limits of a request. -/
def TMessage.Fits : TMessage → Prop
  | version _ _ v => ShortLength v
  | auth _ _ uname aname => ShortLength uname ∧ ShortLength aname
  | attach _ _ _ uname aname => ShortLength uname ∧ ShortLength aname
  | walk _ _ _ wnames => wnames.length ≤ MAXWELEM ∧ ∀ name ∈ wnames, ShortLength name
  | create _ _ name _ _ => ShortLength name
  | write _ _ _ data => data.length < 2 ^ 32
  | wstat _ _ s => ShortLength s.bytes
  | renameAt _ _ oldname _ newname => ShortLength oldname ∧ ShortLength newname
  | flush .. | .open .. | read .. | clunk .. | remove .. | stat .. | referrals .. => True

/-- The fields of a response behind its header. -/
def RMessage.body : RMessage → Bytes
  | version _ msize v => u32Bytes msize ++ stringBytes v
  | auth _ q | attach _ q => q.bytes
  | error _ ename => stringBytes ename
  | flush _ | clunk _ | remove _ | wstat _ | renameAt _ => []
  | walk _ qids => leBytes 2 qids.length ++ qids.flatMap Qid.bytes
  | .open _ q iounit | create _ q iounit => q.bytes ++ u32Bytes iounit
  | read _ data => leBytes 4 data.length ++ data
  | write _ count => u32Bytes count
  | stat _ s => stringBytes s.bytes
  | referrals _ rs => leBytes 2 rs.length ++ rs.flatMap NamespaceReferral.bytes

/-- The length limits of a response. -/
def RMessage.Fits : RMessage → Prop
  | version _ _ v => ShortLength v
  | error _ ename => ShortLength ename
  | walk _ qids => qids.length ≤ MAXWELEM
  | read _ data => data.length < 2 ^ 32
  | stat _ s => ShortLength s.bytes
  | referrals _ rs => rs.length < 2 ^ 16 ∧ ∀ r ∈ rs, r.Fits
  | auth .. | attach .. | flush .. | .open .. | create .. | write .. | clunk .. | remove ..
  | wstat .. | renameAt .. => True

/-- A whole frame: its size, type byte and tag, then the fields. -/
def frameBytes (messageType : UInt8) (tag : Tag) (body : Bytes) : Bytes :=
  leBytes 4 (7 + body.length) ++ (messageType :: (u16Bytes tag ++ body))

/-! ### The decoder reads exactly the field layouts -/

variable {α : Type}

private theorem exact_word (width : Nat) (ofNat : Nat → α) (toNat : α → Nat)
    (hlt : ∀ a, toNat a < 256 ^ width) (hof : ∀ a, ofNat (toNat a) = a)
    (hto : ∀ n, n < 256 ^ width → toNat (ofNat n) = n) :
    Exact ((fun bytes => ofNat (ofLeBytes bytes)) <$> Cursor.take width)
      (fun a bs => bs = leBytes width (toNat a)) := by
  refine (Exact.map _ (.take width _)).congr ?_
  intro a bs
  constructor
  · rintro ⟨x, ⟨rfl, rfl⟩, rfl⟩
    rw [hto _ (ofLeBytes_lt bs), leBytes_ofLeBytes]
  · rintro rfl
    refine ⟨leBytes width (toNat a), ⟨rfl, length_leBytes _ _⟩, ?_⟩
    rw [ofLeBytes_leBytes _ _ (hlt a), hof]

variable {bs : Bytes} {n : Nat}

private theorem word_eq_iff (width : Nat) (ofNat : Nat → α) (toNat : α → Nat)
    (hto : ∀ n, n < 256 ^ width → toNat (ofNat n) = n) (hl : bs.length = width)
    (hn : n < 256 ^ width) : ofNat (ofLeBytes bs) = ofNat n ↔ bs = leBytes width n := by
  have hb := ofLeBytes_lt bs
  rw [hl] at hb
  constructor
  · intro he
    have hv : ofLeBytes bs = n := by rw [← hto _ hb, he, hto _ hn]
    rw [← hv, ← hl, leBytes_ofLeBytes]
  · rintro rfl
    rw [ofLeBytes_leBytes _ _ hn]

private theorem exact_u8 : Exact Cursor.u8 (fun v bs => bs = [v]) := by
  refine (Exact.map _ (.take 1 _)).congr ?_
  intro v bs
  constructor
  · rintro ⟨x, ⟨rfl, hl⟩, rfl⟩
    obtain ⟨b, rfl⟩ := List.length_eq_one_iff.mp hl
    rfl
  · rintro rfl
    exact ⟨[v], ⟨rfl, rfl⟩, rfl⟩

private theorem exact_u16 : Exact Cursor.u16 (fun v bs => bs = u16Bytes v) :=
  exact_word 2 UInt16.ofNat UInt16.toNat (fun a => a.toNat_lt) (fun _ => UInt16.ofNat_toNat)
    (fun _ h => UInt16.toNat_ofNat_of_lt' h)

private theorem exact_u32 : Exact Cursor.u32 (fun v bs => bs = u32Bytes v) :=
  exact_word 4 UInt32.ofNat UInt32.toNat (fun a => a.toNat_lt) (fun _ => UInt32.ofNat_toNat)
    (fun _ h => UInt32.toNat_ofNat_of_lt' h)

private theorem exact_u64 : Exact Cursor.u64 (fun v bs => bs = u64Bytes v) :=
  exact_word 8 UInt64.ofNat UInt64.toNat (fun a => a.toNat_lt) (fun _ => UInt64.ofNat_toNat)
    (fun _ h => UInt64.toNat_ofNat_of_lt' h)

private theorem exact_qid : Exact Cursor.qid (fun q bs => bs = q.bytes) := by
  refine (exact_u8.bind fun qtype => exact_u32.bind fun version =>
    exact_u64.last fun path => Qid.mk qtype version path).congr ?_
  rintro ⟨qtype, version, path⟩ bs
  simp [Qid.bytes]

-- A count in front of a counted field is the same bytes as the field's own length.
private theorem counted16_iff (n : Nat) (bs : Bytes) :
    (∃ v : UInt16, n = v.toNat ∧ bs = u16Bytes v) ↔ n < 2 ^ 16 ∧ bs = leBytes 2 n := by
  constructor
  · rintro ⟨v, rfl, rfl⟩
    exact ⟨v.toNat_lt, rfl⟩
  · rintro ⟨hn, rfl⟩
    have hv : (UInt16.ofNat n).toNat = n := UInt16.toNat_ofNat_of_lt' hn
    exact ⟨UInt16.ofNat n, hv.symm, by rw [u16Bytes, hv]⟩

private theorem counted32_iff (n : Nat) (bs : Bytes) :
    (∃ v : UInt32, n = v.toNat ∧ bs = u32Bytes v) ↔ n < 2 ^ 32 ∧ bs = leBytes 4 n := by
  constructor
  · rintro ⟨v, rfl, rfl⟩
    exact ⟨v.toNat_lt, rfl⟩
  · rintro ⟨hn, rfl⟩
    have hv : (UInt32.ofNat n).toNat = n := UInt32.toNat_ofNat_of_lt' hn
    exact ⟨UInt32.ofNat n, hv.symm, by rw [u32Bytes, hv]⟩

-- The count precedes a body whose format may depend on it.
/-- What is read behind a number that says how much. -/
private theorem exact_counted {ν : Type} {read : Decoder UInt8 Error ν} {toNat : ν → Nat}
    {F : ν → Bytes → Prop} {width bound : Nat} (hr : Exact read F)
    (hi : ∀ n bs, (∃ v, n = toNat v ∧ F v bs) ↔ n < bound ∧ bs = leBytes width n)
    {d : Nat → Decoder UInt8 Error α} {G : Nat → α → Bytes → Prop} (h : ∀ n, Exact (d n) (G n)) :
    Exact (do let n ← read; d (toNat n))
      (fun a bs => ∃ n body, n < bound ∧ bs = leBytes width n ++ body ∧ G n a body) := by
  refine (hr.bind fun n => h (toNat n)).congr ?_
  intro a bs
  constructor
  · rintro ⟨v, xs, ys, hx, rfl, hg⟩
    obtain ⟨hlt, hb⟩ := (hi _ _).mp ⟨v, rfl, hx⟩
    exact ⟨toNat v, ys, hlt, by rw [hb], hg⟩
  · rintro ⟨n, body, hlt, rfl, hg⟩
    obtain ⟨v, rfl, hb⟩ := (hi _ _).mpr ⟨hlt, rfl⟩
    exact ⟨v, _, body, hb, rfl, hg⟩

private theorem exact_bytes (n : Nat) :
    Exact (Cursor.bytes n) (fun a bs => n = a.length ∧ bs = a) := by
  refine (Exact.take n _).congr ?_
  intro a bs
  constructor
  all_goals
    rintro ⟨rfl, rfl⟩
    exact ⟨rfl, rfl⟩

private theorem exact_string :
    Exact Cursor.string (fun v bs => ShortLength v ∧ bs = stringBytes v) := by
  refine (exact_counted exact_u16 counted16_iff exact_bytes).congr ?_
  intro v bs
  simp [ShortLength, stringBytes]

/-! ### Stat records -/

private theorem exact_statFields : Exact Stat.fields (fun s bs =>
      (ShortLength s.name ∧ ShortLength s.uid ∧ ShortLength s.gid ∧ ShortLength s.muid) ∧
        bs = s.body) := by
  refine (exact_u16.bind fun type => exact_u32.bind fun dev => exact_qid.bind fun qid =>
    exact_u32.bind fun mode => exact_u32.bind fun atime => exact_u32.bind fun mtime =>
    exact_u64.bind fun length => exact_string.bind fun name => exact_string.bind fun uid =>
    exact_string.bind fun gid => exact_string.last fun muid =>
    Stat.mk type dev qid mode atime mtime length name uid gid muid).congr ?_
  rintro ⟨type, dev, qid, mode, atime, mtime, length, name, uid, gid, muid⟩ bs
  simp [Stat.body]
  tauto

variable {s : Stat}

/-- Every string of a stat record fits once the record as a whole does. -/
theorem Stat.strings_short (h : ShortLength s.body) :
    ShortLength s.name ∧ ShortLength s.uid ∧ ShortLength s.gid ∧ ShortLength s.muid := by
  simp only [ShortLength, Stat.body, stringBytes, length_append] at *
  omega

/-- A stat record decodes exactly from its layout. -/
theorem Stat.decode_ok_iff (encoded : Bytes) (s : Stat) :
    Stat.decode encoded = .ok s ↔ ShortLength s.body ∧ encoded = s.bytes := by
  unfold Stat.decode
  rw [Exact.whole_sized_ok_iff exact_u16 exact_statFields]
  constructor
  · rintro ⟨n, xs, ys, hx, ⟨-, rfl⟩, hn, rfl⟩
    obtain ⟨hlt, hb⟩ := (counted16_iff _ _).mp ⟨n, hn.symm, hx⟩
    exact ⟨hlt, by rw [hb]; rfl⟩
  · rintro ⟨hlt, rfl⟩
    obtain ⟨n, hn, hb⟩ := (counted16_iff _ _).mpr ⟨hlt, rfl⟩
    exact ⟨n, _, _, hb, ⟨Stat.strings_short hlt, rfl⟩, hn.symm, rfl⟩

theorem Stat.short_body (h : ShortLength s.bytes) : ShortLength s.body := by
  simp only [ShortLength, Stat.bytes, stringBytes, length_append] at *
  omega

variable {γ : Type} {enc : α → Bytes} {ok : α → Prop} {d : Decoder UInt8 Error α}

private theorem exact_sizedStat (f : Stat → γ) : Exact (do
      let nstat ← Cursor.u16
      let encoded ← Cursor.bytes nstat.toNat
      let stat ← Decoder.check (Stat.decode encoded)
      pure (f stat))
      (fun b bs => ∃ s, (ShortLength s.bytes ∧ bs = stringBytes s.bytes) ∧ b = f s) := by
  refine (exact_counted exact_u16 counted16_iff fun n => (exact_bytes n).bind fun encoded =>
    (Exact.check (Stat.decode encoded)).last f).congr ?_
  intro b bs
  constructor
  · rintro ⟨_, _, hlt, rfl, encoded, _, _, ⟨rfl, rfl⟩, rfl, s, ⟨hd, rfl⟩, rfl⟩
    obtain ⟨-, rfl⟩ := (Stat.decode_ok_iff _ s).mp hd
    exact ⟨s, ⟨hlt, by rw [append_nil]; rfl⟩, rfl⟩
  · rintro ⟨s, ⟨hs, rfl⟩, rfl⟩
    have hd := (Stat.decode_ok_iff _ s).mpr ⟨Stat.short_body hs, rfl⟩
    exact ⟨_, s.bytes, hs, rfl, _, _, [], ⟨rfl, rfl⟩, (append_nil _).symm, s, ⟨hd, rfl⟩, rfl⟩

/-! ### Referrals -/

private theorem exact_referral : Exact decodeReferral (fun r bs => r.Fits ∧ bs = r.bytes) := by
  refine (exact_string.bind fun mountPath => exact_string.bind fun endpoint =>
    exact_string.bind fun uname => exact_string.bind fun aname =>
    exact_string.bind fun exportedRoot => exact_string.bind fun authorityBoundary =>
    exact_u64.bind fun generation => exact_u64.bind fun validForMs =>
    (Exact.check (NamespaceReferral.validate ⟨mountPath, endpoint, uname, aname, exportedRoot,
      authorityBoundary, generation, validForMs⟩)).last fun _ =>
    NamespaceReferral.mk mountPath endpoint uname aname exportedRoot authorityBoundary generation
      validForMs).congr ?_
  rintro ⟨mountPath, endpoint, uname, aname, exportedRoot, authorityBoundary, generation,
    validForMs⟩ bs
  simp [NamespaceReferral.bytes, NamespaceReferral.Fits]
  tauto

/-! ### Counted lists and data -/

private theorem exact_list
    (h : Exact d (fun a bs => ok a ∧ bs = enc a)) (n : Nat) :
    Exact (d.replicate n)
      (fun as bs => n = as.length ∧ (∀ a ∈ as, ok a) ∧ bs = as.flatMap enc) := by
  refine (h.replicate n).congr ?_
  intro as bs
  rw [Concat.iff_flatMap (fun _ _ => Iff.rfl), eq_comm]

-- `walk` and its reply bound their list before they read it.
private theorem exact_walkList
    (h : Exact d (fun a bs => ok a ∧ bs = enc a)) (e : Error)
    (f : List α → γ) :
    Exact (do
      let n ← Cursor.u16
      Decoder.refuse (n.toNat > MAXWELEM) e
      let as ← d.replicate n.toNat
      pure (f as))
      (fun b bs => ∃ as, ((as.length ≤ MAXWELEM ∧ ∀ a ∈ as, ok a) ∧
        bs = leBytes 2 as.length ++ as.flatMap enc) ∧ b = f as) := by
  refine (exact_counted exact_u16 counted16_iff fun n =>
    (Exact.refuse (n > MAXWELEM) e).bind fun _ => (exact_list h n).last f).congr ?_
  intro b bs
  constructor
  · rintro ⟨_, _, -, rfl, _, _, _, ⟨hn, rfl⟩, rfl, as, ⟨rfl, hok, rfl⟩, rfl⟩
    exact ⟨as, ⟨⟨Nat.le_of_not_lt hn, hok⟩, rfl⟩, rfl⟩
  · rintro ⟨as, ⟨⟨hle, hok⟩, rfl⟩, rfl⟩
    have hlt : as.length < 2 ^ 16 := Nat.lt_of_le_of_lt hle (by decide)
    exact ⟨_, _, hlt, rfl, (), [], _, ⟨Nat.not_lt_of_le hle, rfl⟩, rfl, as, ⟨rfl, hok, rfl⟩, rfl⟩

private theorem exact_data (f : Bytes → γ) :
    Exact (do
      let count ← Cursor.u32
      let data ← Cursor.bytes count.toNat
      pure (f data))
      (fun b bs => ∃ data, (data.length < 2 ^ 32 ∧ bs = leBytes 4 data.length ++ data) ∧
        b = f data) := by
  refine (exact_counted exact_u32 counted32_iff fun n => (exact_bytes n).last f).congr ?_
  intro b bs
  constructor
  · rintro ⟨_, _, hlt, rfl, data, ⟨rfl, rfl⟩, rfl⟩
    exact ⟨_, ⟨hlt, rfl⟩, rfl⟩
  · rintro ⟨data, ⟨hlt, rfl⟩, rfl⟩
    exact ⟨_, _, hlt, rfl, data, ⟨rfl, rfl⟩, rfl⟩

/-! ### Messages -/

variable {μ : Type} {body : μ → Bytes} {fits : μ → Prop}

variable (messageType : UInt8)

-- One branch of a decoder: its chain of fields yields exactly the messages of its type.
private theorem exact_kind {type : μ → UInt8} {tagOf : μ → Tag}
    {tag : Tag} {d : Decoder UInt8 Error μ}
    {E : μ → Bytes → Prop} (h : Exact d E)
    (hs : ∀ m bs, E m bs → (type m = messageType ∧ tagOf m = tag ∧ fits m) ∧ bs = body m)
    (hc : ∀ m, type m = messageType → tag = tagOf m → fits m → E m (body m)) :
    Exact d (fun m bs => (type m = messageType ∧ tagOf m = tag ∧ fits m) ∧ bs = body m) := by
  refine h.congr fun m bs => ⟨hs m bs, ?_⟩
  rintro ⟨⟨hm, ht, hf⟩, rfl⟩
  exact hc m hm ht.symm hf

section Requests

attribute [local grind =] TMessage.messageType TMessage.tag TMessage.Fits TMessage.body

private theorem exact_readTMessage (tag : Tag) : Exact (readTMessage messageType tag)
      (fun m bs => (m.messageType = messageType ∧ m.tag = tag ∧ m.Fits) ∧ bs = m.body) := by
  unfold readTMessage
  split
  · refine exact_kind TVERSION (exact_u32.bind fun msize => exact_string.last fun version =>
      TMessage.version tag msize version) (by grind) ?_
    rintro (_ | _) hm rfl hf <;> cases hm
    exact ⟨_, _, _, rfl, rfl, _, ⟨hf, rfl⟩, rfl⟩
  · refine exact_kind TAUTH (exact_u32.bind fun afid => exact_string.bind fun uname =>
      exact_string.last fun aname => TMessage.auth tag afid uname aname) (by grind) ?_
    rintro (_ | _) hm rfl hf <;> cases hm
    exact ⟨_, _, _, rfl, rfl, _, _, _, ⟨hf.1, rfl⟩, rfl, _, ⟨hf.2, rfl⟩, rfl⟩
  · refine exact_kind TATTACH (exact_u32.bind fun fid => exact_u32.bind fun afid =>
      exact_string.bind fun uname => exact_string.last fun aname =>
      TMessage.attach tag fid afid uname aname) (by grind) ?_
    rintro (_ | _) hm rfl hf <;> cases hm
    exact ⟨_, _, _, rfl, rfl, _, _, _, rfl, rfl, _, _, _, ⟨hf.1, rfl⟩, rfl, _, ⟨hf.2, rfl⟩, rfl⟩
  · refine exact_kind TFLUSH (exact_u16.last fun oldtag => TMessage.flush tag oldtag) (by grind) ?_
    rintro (_ | _) hm rfl hf <;> cases hm
    exact ⟨_, rfl, rfl⟩
  · refine exact_kind TWALK (exact_u32.bind fun fid => exact_u32.bind fun newfid =>
      exact_walkList exact_string _ fun wnames => TMessage.walk tag fid newfid wnames) (by grind) ?_
    rintro (_ | _) hm rfl hf <;> cases hm
    exact ⟨_, _, _, rfl, rfl, _, _, _, rfl, rfl, _, ⟨hf, rfl⟩, rfl⟩
  · refine exact_kind TOPEN (exact_u32.bind fun fid => exact_u8.last fun mode => TMessage.open tag
      fid mode) (by grind) ?_
    rintro (_ | _) hm rfl hf <;> cases hm
    exact ⟨_, _, _, rfl, rfl, _, rfl, rfl⟩
  · refine exact_kind TCREATE (exact_u32.bind fun fid => exact_string.bind fun name =>
      exact_u32.bind fun perm => exact_u8.last fun mode => TMessage.create tag fid name perm mode)
        (by grind) ?_
    rintro (_ | _) hm rfl hf <;> cases hm
    exact ⟨_, _, _, rfl, rfl, _, _, _, ⟨hf, rfl⟩, rfl, _, _, _, rfl, rfl, _, rfl, rfl⟩
  · refine exact_kind TREAD (exact_u32.bind fun fid => exact_u64.bind fun offset =>
      exact_u32.last fun count => TMessage.read tag fid offset count) (by grind) ?_
    rintro (_ | _) hm rfl hf <;> cases hm
    exact ⟨_, _, _, rfl, rfl, _, _, _, rfl, rfl, _, rfl, rfl⟩
  · refine exact_kind TWRITE (exact_u32.bind fun fid => exact_u64.bind fun offset =>
      exact_data fun data => TMessage.write tag fid offset data) (by grind) ?_
    rintro (_ | _) hm rfl hf <;> cases hm
    exact ⟨_, _, _, rfl, rfl, _, _, _, rfl, rfl, _, ⟨hf, rfl⟩, rfl⟩
  · refine exact_kind TCLUNK (exact_u32.last fun fid => TMessage.clunk tag fid) (by grind) ?_
    rintro (_ | _) hm rfl hf <;> cases hm
    exact ⟨_, rfl, rfl⟩
  · refine exact_kind TREMOVE (exact_u32.last fun fid => TMessage.remove tag fid) (by grind) ?_
    rintro (_ | _) hm rfl hf <;> cases hm
    exact ⟨_, rfl, rfl⟩
  · refine exact_kind TSTAT (exact_u32.last fun fid => TMessage.stat tag fid) (by grind) ?_
    rintro (_ | _) hm rfl hf <;> cases hm
    exact ⟨_, rfl, rfl⟩
  · refine exact_kind TWSTAT (exact_u32.bind fun fid =>
      exact_sizedStat fun stat => TMessage.wstat tag fid stat) (by grind) ?_
    rintro (_ | _) hm rfl hf <;> cases hm
    exact ⟨_, _, _, rfl, rfl, _, ⟨hf, rfl⟩, rfl⟩
  · refine exact_kind TRENAMEAT (exact_u32.bind fun olddirfid => exact_string.bind fun oldname =>
      exact_u32.bind fun newdirfid => exact_string.last fun newname =>
      TMessage.renameAt tag olddirfid oldname newdirfid newname) (by grind) ?_
    rintro (_ | _) hm rfl hf <;> cases hm
    exact ⟨_, _, _, rfl, rfl, _, _, _, ⟨hf.1, rfl⟩, rfl, _, _, _, rfl, rfl, _, ⟨hf.2, rfl⟩, rfl⟩
  · refine exact_kind TREFERRALS (exact_u32.last fun fid => TMessage.referrals tag fid) (by grind)
      ?_
    rintro (_ | _) hm rfl hf <;> cases hm
    exact ⟨_, rfl, rfl⟩
  · refine (Exact.throw _).congr fun m bs => ⟨False.elim, ?_⟩
    rintro ⟨⟨rfl, -⟩, -⟩
    cases m <;> contradiction

end Requests

section Responses

attribute [local grind =] RMessage.messageType RMessage.tag RMessage.Fits RMessage.body

private theorem exact_readRMessage (tag : Tag) : Exact (readRMessage messageType tag)
      (fun m bs => (m.messageType = messageType ∧ m.tag = tag ∧ m.Fits) ∧ bs = m.body) := by
  unfold readRMessage
  split
  · refine exact_kind RVERSION (exact_u32.bind fun msize => exact_string.last fun version =>
      RMessage.version tag msize version) (by grind) ?_
    rintro (_ | _) hm rfl hf <;> cases hm
    exact ⟨_, _, _, rfl, rfl, _, ⟨hf, rfl⟩, rfl⟩
  · refine exact_kind RAUTH (exact_qid.last fun aqid => RMessage.auth tag aqid) (by grind) ?_
    rintro (_ | _) hm rfl hf <;> cases hm
    exact ⟨_, rfl, rfl⟩
  · refine exact_kind RATTACH (exact_qid.last fun qid => RMessage.attach tag qid) (by grind) ?_
    rintro (_ | _) hm rfl hf <;> cases hm
    exact ⟨_, rfl, rfl⟩
  · refine exact_kind RERROR (exact_string.last fun ename => RMessage.error tag ename) (by grind) ?_
    rintro (_ | _) hm rfl hf <;> cases hm
    exact ⟨_, ⟨hf, rfl⟩, rfl⟩
  · refine exact_kind RFLUSH (.pure (RMessage.flush tag)) (by grind) ?_
    rintro (_ | _) hm rfl hf <;> cases hm
    exact ⟨rfl, rfl⟩
  · have hq : Exact Cursor.qid (fun q bs => True ∧ bs = q.bytes) :=
      exact_qid.congr fun _ _ => (and_iff_right trivial).symm
    refine exact_kind RWALK (exact_walkList hq _ fun qids => RMessage.walk tag qids) (by grind) ?_
    rintro (_ | _) hm rfl hf <;> cases hm
    exact ⟨_, ⟨⟨hf, fun _ _ => trivial⟩, rfl⟩, rfl⟩
  · refine exact_kind ROPEN (exact_qid.bind fun qid => exact_u32.last fun iounit => RMessage.open
      tag qid iounit) (by grind) ?_
    rintro (_ | _) hm rfl hf <;> cases hm
    exact ⟨_, _, _, rfl, rfl, _, rfl, rfl⟩
  · refine exact_kind RCREATE (exact_qid.bind fun qid => exact_u32.last fun iounit =>
      RMessage.create tag qid iounit) (by grind) ?_
    rintro (_ | _) hm rfl hf <;> cases hm
    exact ⟨_, _, _, rfl, rfl, _, rfl, rfl⟩
  · refine exact_kind RREAD (exact_data fun data => RMessage.read tag data) (by grind) ?_
    rintro (_ | _) hm rfl hf <;> cases hm
    exact ⟨_, ⟨hf, rfl⟩, rfl⟩
  · refine exact_kind RWRITE (exact_u32.last fun count => RMessage.write tag count) (by grind) ?_
    rintro (_ | _) hm rfl hf <;> cases hm
    exact ⟨_, rfl, rfl⟩
  · refine exact_kind RCLUNK (.pure (RMessage.clunk tag)) (by grind) ?_
    rintro (_ | _) hm rfl hf <;> cases hm
    exact ⟨rfl, rfl⟩
  · refine exact_kind RREMOVE (.pure (RMessage.remove tag)) (by grind) ?_
    rintro (_ | _) hm rfl hf <;> cases hm
    exact ⟨rfl, rfl⟩
  · refine exact_kind RSTAT (exact_sizedStat fun stat => RMessage.stat tag stat) (by grind) ?_
    rintro (_ | _) hm rfl hf <;> cases hm
    exact ⟨_, ⟨hf, rfl⟩, rfl⟩
  · refine exact_kind RWSTAT (.pure (RMessage.wstat tag)) (by grind) ?_
    rintro (_ | _) hm rfl hf <;> cases hm
    exact ⟨rfl, rfl⟩
  · refine exact_kind RRENAMEAT (.pure (RMessage.renameAt tag)) (by grind) ?_
    rintro (_ | _) hm rfl hf <;> cases hm
    exact ⟨rfl, rfl⟩
  · refine exact_kind RREFERRALS (exact_counted exact_u16 counted16_iff fun n =>
      (exact_list exact_referral n).last fun referrals => RMessage.referrals tag referrals)
      (by grind) ?_
    rintro (_ | _) hm rfl hf <;> cases hm
    exact ⟨_, _, hf.1, rfl, _, ⟨rfl, hf.2, rfl⟩, rfl⟩
  · refine (Exact.throw _).congr fun m bs => ⟨False.elim, ?_⟩
    rintro ⟨⟨rfl, -⟩, -⟩
    cases m <;> contradiction

end Responses

/-! ### The encoder writes exactly the field layouts -/

variable {e : String}

-- A counted field is the checked length in front of what it counts.
private theorem counted16_ok_iff {k : UInt16 → Result α} {r : α} :
    (tryU16 n e >>= k) = .ok r ↔ n < 2 ^ 16 ∧ k (UInt16.ofNat n) = .ok r := by
  unfold tryU16
  split
  · next h => exact ⟨fun hk => ⟨h, hk⟩, fun hk => hk.2⟩
  · next h => exact ⟨fun hk => (nomatch hk), fun hk => absurd hk.1 h⟩

private theorem counted32_ok_iff {k : UInt32 → Result α} {r : α} :
    (tryU32 n e >>= k) = .ok r ↔ n < 2 ^ 32 ∧ k (UInt32.ofNat n) = .ok r := by
  unfold tryU32
  split
  · next h => exact ⟨fun hk => ⟨h, hk⟩, fun hk => hk.2⟩
  · next h => exact ⟨fun hk => (nomatch hk), fun hk => absurd hk.1 h⟩

private theorem u16Bytes_ofNat (h : n < 2 ^ 16) : u16Bytes (UInt16.ofNat n) = leBytes 2 n := by
  rw [u16Bytes, UInt16.toNat_ofNat_of_lt' h]

private theorem u32Bytes_ofNat (h : n < 2 ^ 32) : u32Bytes (UInt32.ofNat n) = leBytes 4 n := by
  rw [u32Bytes, UInt32.toNat_ofNat_of_lt' h]

private theorem pushU16_eq (out : Bytes) (v : UInt16) : pushU16 out v = out ++ u16Bytes v := rfl
private theorem pushU32_eq (out : Bytes) (v : UInt32) : pushU32 out v = out ++ u32Bytes v := rfl
private theorem pushU64_eq (out : Bytes) (v : UInt64) : pushU64 out v = out ++ u64Bytes v := rfl

private theorem pushQid_eq (out : Bytes) (q : Qid) : pushQid out q = out ++ q.bytes := by
  simp [pushQid, pushU8, pushU32_eq, pushU64_eq, Qid.bytes]

private theorem pushString_ok_iff (out value r : Bytes) :
    pushString out value = .ok r ↔ ShortLength value ∧ r = out ++ stringBytes value := by
  unfold pushString
  rw [counted16_ok_iff]
  refine and_congr_right fun h => ?_
  rw [pushU16_eq, u16Bytes_ofNat h, Except.ok.injEq, stringBytes, append_assoc, eq_comm]

variable {out : Bytes} {push : Bytes → α → Result Bytes}

private theorem pushString_bind_ok_iff {value : Bytes} {k : Bytes → Result α}
    {r : α} : (pushString out value >>= k) = .ok r ↔
      ShortLength value ∧ k (out ++ stringBytes value) = .ok r := by
  rw [bind_ok]
  constructor
  · rintro ⟨v, hv, hk⟩
    obtain ⟨hs, rfl⟩ := (pushString_ok_iff _ _ _).mp hv
    exact ⟨hs, hk⟩
  · rintro ⟨hs, hk⟩
    exact ⟨_, (pushString_ok_iff _ _ _).mpr ⟨hs, rfl⟩, hk⟩

private theorem pushAll_ok_iff
    (h : ∀ out a r, push out a = .ok r ↔ ok a ∧ r = out ++ enc a)
    (out : Bytes) (as : List α) (r : Bytes) :
    pushAll push out as = .ok r ↔ (∀ a ∈ as, ok a) ∧ r = out ++ as.flatMap enc := by
  induction as generalizing out with
  | nil => simp [pushAll, eq_comm]
  | cons a rest ih =>
    simp only [pushAll, bind_ok, h, ih, List.forall_mem_cons, List.flatMap_cons]
    constructor
    · rintro ⟨_, ⟨ha, rfl⟩, hr, rfl⟩
      exact ⟨⟨ha, hr⟩, append_assoc _ _ _⟩
    · rintro ⟨⟨ha, hr⟩, rfl⟩
      exact ⟨_, ⟨ha, rfl⟩, hr, (append_assoc _ _ _).symm⟩

/-- A stat record encodes to its layout whenever it fits. -/
theorem Stat.encode_ok_iff (s : Stat) (r : Bytes) :
    s.encode = .ok r ↔ ShortLength s.body ∧ r = s.bytes := by
  simp only [Stat.encode, pushString_bind_ok_iff, counted16_ok_iff, pushU16_eq, pushU32_eq,
    pushU64_eq, pushQid_eq, append_assoc, List.nil_append]
  change (_ ∧ _ ∧ _ ∧ _ ∧ ShortLength s.body ∧
    .ok (u16Bytes (UInt16.ofNat s.body.length) ++ s.body) = Except.ok r) ↔ _
  rw [Except.ok.injEq]
  constructor
  · rintro ⟨-, -, -, -, hs, rfl⟩
    exact ⟨hs, by rw [u16Bytes_ofNat hs]; rfl⟩
  · rintro ⟨hs, rfl⟩
    obtain ⟨hn, hu, hg, hm⟩ := Stat.strings_short hs
    exact ⟨hn, hu, hg, hm, hs, by rw [u16Bytes_ofNat hs]; rfl⟩

variable {r : Bytes}

private theorem sizedStat_ok_iff :
    (do
      let encoded ← s.encode
      let nstat ← tryU16 encoded.length e
      .ok (pushU16 out nstat ++ encoded)) = .ok r ↔
      ShortLength s.bytes ∧ r = out ++ stringBytes s.bytes := by
  rw [bind_ok]
  simp only [Stat.encode_ok_iff, counted16_ok_iff, pushU16_eq, Except.ok.injEq]
  constructor
  · rintro ⟨_, ⟨-, rfl⟩, hs, rfl⟩
    exact ⟨hs, by rw [u16Bytes_ofNat hs, append_assoc]; rfl⟩
  · rintro ⟨hs, rfl⟩
    refine ⟨_, ⟨Stat.short_body hs, rfl⟩, hs, ?_⟩
    rw [u16Bytes_ofNat hs, append_assoc]
    rfl

private theorem encodeReferral_ok_iff (out : Bytes) (referral : NamespaceReferral) (r : Bytes) :
    encodeReferral out referral = .ok r ↔ referral.Fits ∧ r = out ++ referral.bytes := by
  rw [encodeReferral, check_ok]
  simp only [pushString_bind_ok_iff, pushU64_eq, NamespaceReferral.Fits,
    NamespaceReferral.bytes, append_assoc, Except.ok.injEq, and_assoc,
    eq_comm (b := r)]

-- `walk` and its reply refuse an overlong list before they write it.
private theorem walkList_ok_iff
    (h : ∀ out a r, push out a = .ok r ↔ ok a ∧ r = out ++ enc a)
    {refusal : String} {as : List α} :
    (if as.length > MAXWELEM then .error (.fromStatic refusal)
      else do
        let n ← tryU16 as.length e
        pushAll push (pushU16 out n) as) = .ok r ↔
      (as.length ≤ MAXWELEM ∧ ∀ a ∈ as, ok a) ∧
        r = out ++ (leBytes 2 as.length ++ as.flatMap enc) := by
  split
  · next hgt => exact ⟨fun hk => (nomatch hk), fun hk => absurd hgt (Nat.not_lt_of_le hk.1.1)⟩
  · next hle =>
    have hlt : as.length < 2 ^ 16 := Nat.lt_of_le_of_lt (Nat.le_of_not_lt hle) (by decide)
    rw [counted16_ok_iff, pushAll_ok_iff h, pushU16_eq, u16Bytes_ofNat hlt, append_assoc,
      and_iff_right hlt, and_iff_right (Nat.le_of_not_lt hle)]

private theorem data_ok_iff {data : Bytes} : (do
      let count ← tryU32 data.length e
      .ok (pushU32 out count ++ data)) = .ok r ↔
      data.length < 2 ^ 32 ∧ r = out ++ (leBytes 4 data.length ++ data) := by
  rw [counted32_ok_iff]
  refine and_congr_right fun h => ?_
  rw [pushU32_eq, u32Bytes_ofNat h, Except.ok.injEq, append_assoc, eq_comm]

/-- The fields of a request are appended whenever they fit. -/
theorem pushTMessage_ok_iff (frame : Bytes) (m : TMessage) (r : Bytes) :
    pushTMessage frame m = .ok r ↔ m.Fits ∧ r = frame ++ m.body := by
  cases m with
  | walk tag fid newfid wnames =>
    rw [pushTMessage, walkList_ok_iff pushString_ok_iff, pushU32_eq, pushU32_eq]
    simp only [TMessage.Fits, TMessage.body, append_assoc]
  | wstat tag fid s =>
    rw [pushTMessage, sizedStat_ok_iff, pushU32_eq, append_assoc]
    rfl
  | write tag fid offset data =>
    rw [pushTMessage, data_ok_iff, pushU64_eq, pushU32_eq]
    simp only [TMessage.Fits, TMessage.body, append_assoc]
  | _ =>
    simp only [pushTMessage, TMessage.Fits, TMessage.body, pushString_bind_ok_iff,
      pushString_ok_iff, pushU8, pushU16_eq, pushU32_eq, pushU64_eq, append_assoc,
      Except.ok.injEq, and_assoc, true_and, eq_comm (b := r)]

/-- The fields of a response are appended whenever they fit. -/
theorem pushRMessage_ok_iff (frame : Bytes) (m : RMessage) (r : Bytes) :
    pushRMessage frame m = .ok r ↔ m.Fits ∧ r = frame ++ m.body := by
  cases m with
  | walk tag qids =>
    have hq (out : Bytes) (q : Qid) (r : Bytes) :
        Except.ok (ε := Error) (pushQid out q) = .ok r ↔ True ∧ r = out ++ q.bytes := by
      rw [pushQid_eq, Except.ok.injEq, eq_comm, and_iff_right trivial]
    rw [pushRMessage, walkList_ok_iff hq]
    simp only [RMessage.Fits, RMessage.body, implies_true, and_true]
  | stat tag s =>
    rw [pushRMessage, sizedStat_ok_iff]
    rfl
  | read tag data =>
    rw [pushRMessage, data_ok_iff]
    rfl
  | referrals tag rs =>
    rw [pushRMessage, counted16_ok_iff, pushAll_ok_iff encodeReferral_ok_iff, RMessage.Fits,
      and_assoc]
    refine and_congr_right fun h => ?_
    rw [pushU16_eq, u16Bytes_ofNat h, append_assoc, RMessage.body]
  | _ =>
    simp only [pushRMessage, RMessage.Fits, RMessage.body, pushString_ok_iff, pushU32_eq,
      pushQid_eq, append_assoc, append_nil, Except.ok.injEq, true_and, eq_comm (b := r)]

/-! ### Frames -/

private theorem finishFrame_ok_iff (tag : Tag) (body r : Bytes) :
    finishFrame (framePrefix messageType tag ++ body) = .ok r ↔
      7 + body.length < 2 ^ 32 ∧ r = frameBytes messageType tag body := by
  have hl : (framePrefix messageType tag ++ body).length = 7 + body.length := by
    rw [length_append]
    rfl
  have hd : (framePrefix messageType tag ++ body).drop 4 =
      messageType :: (u16Bytes tag ++ body) := rfl
  rw [finishFrame, hl, hd, counted32_ok_iff]
  refine and_congr_right fun h => ?_
  rw [UInt32.toNat_ofNat_of_lt' h, Except.ok.injEq, eq_comm]
  rfl

-- Both encoders are the common header, the fields and the size.
private theorem encode_ok_iff {push : Bytes → μ → Result Bytes}
    (h : ∀ out m r, push out m = .ok r ↔ fits m ∧ r = out ++ body m)
    {messageType : UInt8} {tag : Tag} {m : μ} :
    (push (framePrefix messageType tag) m >>= finishFrame) = .ok r ↔
      (fits m ∧ 7 + (body m).length < 2 ^ 32) ∧ r = frameBytes messageType tag (body m) := by
  rw [bind_ok]
  constructor
  · rintro ⟨_, hp, hf⟩
    obtain ⟨hm, rfl⟩ := (h _ _ _).mp hp
    obtain ⟨hl, rfl⟩ := (finishFrame_ok_iff _ _ _ _).mp hf
    exact ⟨⟨hm, hl⟩, rfl⟩
  · rintro ⟨⟨hm, hl⟩, rfl⟩
    exact ⟨_, (h _ _ _).mpr ⟨hm, rfl⟩, (finishFrame_ok_iff _ _ _ _).mpr ⟨hl, rfl⟩⟩

-- Every frame that is long enough has a header; the fields are what follows it.
private theorem exists_header {frame : Bytes} (h : 7 ≤ frame.length) :
    ∃ s₀ s₁ s₂ s₃ messageType t₀ t₁ body,
      frame = [s₀, s₁, s₂, s₃] ++ (messageType :: ([t₀, t₁] ++ body)) := by
  have hl : (frame.take 7).length = 7 := by
    rw [List.length_take]
    omega
  match hp : frame.take 7, hl with
  | [s₀, s₁, s₂, s₃, messageType, t₀, t₁], _ =>
    refine ⟨s₀, s₁, s₂, s₃, messageType, t₀, t₁, frame.drop 7, ?_⟩
    rw [← List.take_append_drop 7 frame, hp]
    rfl

private theorem validateFrameSize_ok_iff (frame : Bytes) :
    validateFrameSize frame = .ok () ↔ (7 ≤ frame.length ∧ frame.length < 2 ^ 32) ∧
      frame.take 4 = leBytes 4 frame.length := by
  unfold validateFrameSize
  split
  · next hlt =>
    exact ⟨fun hk => (nomatch hk), fun hk => absurd hk.1.1 (Nat.not_le_of_lt hlt)⟩
  · next hge =>
    have h7 : 7 ≤ frame.length := Nat.le_of_not_lt hge
    have ht : (frame.take 4).length = 4 := by
      rw [List.length_take]
      omega
    rw [counted32_ok_iff, and_iff_right h7]
    refine and_congr_right fun hlt => ?_
    rw [← word_eq_iff 4 UInt32.ofNat UInt32.toNat (fun _ h => UInt32.toNat_ofNat_of_lt' h) ht hlt]
    split
    · next hne => exact ⟨fun hk => (nomatch hk), fun hk => absurd hk hne⟩
    · next heq => exact ⟨fun _ => not_not.mp heq, fun _ => rfl⟩

private theorem decodeFrame_ok_iff {read : UInt8 → Tag → Decoder UInt8 Error μ}
    {type : μ → UInt8} {tagOf : μ → Tag}
    (h : ∀ messageType tag, Exact (read messageType tag)
      (fun m bs => (type m = messageType ∧ tagOf m = tag ∧ fits m) ∧ bs = body m))
    (frame : Bytes) (m : μ) :
    decodeFrame read frame = .ok m ↔
      (fits m ∧ 7 + (body m).length < 2 ^ 32) ∧ frame = frameBytes (type m) (tagOf m) (body m) := by
  unfold decodeFrame
  rw [check_ok, (h _ _).whole_ok_iff, validateFrameSize_ok_iff]
  constructor
  · rintro ⟨⟨⟨h7, hlt⟩, hs⟩, ⟨ht, hg, hf⟩, hb⟩
    obtain ⟨s₀, s₁, s₂, s₃, messageType, t₀, t₁, fields, rfl⟩ := exists_header h7
    change fields = body m at hb
    change type m = messageType at ht
    change tagOf m = UInt16.ofNat (ofLeBytes [t₀, t₁]) at hg
    subst hb ht
    have htg : [t₀, t₁] = u16Bytes (tagOf m) := by
      apply (word_eq_iff 2 UInt16.ofNat UInt16.toNat (fun _ h => UInt16.toNat_ofNat_of_lt' h) rfl
        (tagOf m).toNat_lt).mp
      rw [← hg, UInt16.ofNat_toNat]
    have hl : ([s₀, s₁, s₂, s₃] ++ type m :: ([t₀, t₁] ++ body m)).length =
        7 + (body m).length := by
      simp only [length_append, List.length_cons, List.length_nil]
      omega
    rw [hl] at hlt hs
    refine ⟨⟨hf, hlt⟩, ?_⟩
    rw [frameBytes, ← hs, ← htg]
    rfl
  · rintro ⟨⟨hf, hlt⟩, rfl⟩
    have hl : (frameBytes (type m) (tagOf m) (body m)).length = 7 + (body m).length := by
      simp [frameBytes, u16Bytes]
      omega
    have htg : UInt16.ofNat (ofLeBytes (u16Bytes (tagOf m))) = tagOf m := by
      rw [u16Bytes, ofLeBytes_leBytes 2 _ (tagOf m).toNat_lt, UInt16.ofNat_toNat]
    refine ⟨⟨⟨by omega, by omega⟩, by rw [hl]; rfl⟩, ⟨rfl, htg.symm, hf⟩, rfl⟩

/-- A request encodes to its layout whenever it fits. -/
theorem encodeTMessage_ok_iff (m : TMessage) (frame : Bytes) :
    encodeTMessage m = .ok frame ↔ (m.Fits ∧ 7 + m.body.length < 2 ^ 32) ∧
      frame = frameBytes m.messageType m.tag m.body :=
  encode_ok_iff pushTMessage_ok_iff

/-- A request is decoded from its layout and from nothing else. -/
theorem decodeTMessage_ok_iff (m : TMessage) (frame : Bytes) :
    decodeTMessage frame = .ok m ↔ (m.Fits ∧ 7 + m.body.length < 2 ^ 32) ∧
      frame = frameBytes m.messageType m.tag m.body :=
  decodeFrame_ok_iff exact_readTMessage frame m

/-- A response encodes to its layout whenever it fits. -/
theorem encodeRMessage_ok_iff (m : RMessage) (frame : Bytes) :
    encodeRMessage m = .ok frame ↔ (m.Fits ∧ 7 + m.body.length < 2 ^ 32) ∧
      frame = frameBytes m.messageType m.tag m.body :=
  encode_ok_iff pushRMessage_ok_iff

/-- A response is decoded from its layout and from nothing else. -/
theorem decodeRMessage_ok_iff (m : RMessage) (frame : Bytes) :
    decodeRMessage frame = .ok m ↔ (m.Fits ∧ 7 + m.body.length < 2 ^ 32) ∧
      frame = frameBytes m.messageType m.tag m.body :=
  decodeFrame_ok_iff exact_readRMessage frame m

/-- Encodable messages and accepted frames correspond one to one: a frame encodes a
message exactly when it decodes to that message, for requests and for responses. -/
theorem codec_correspondence :
    (∀ (m : TMessage) (frame : Bytes),
      encodeTMessage m = .ok frame ↔ decodeTMessage frame = .ok m) ∧
    (∀ (m : RMessage) (frame : Bytes),
      encodeRMessage m = .ok frame ↔ decodeRMessage frame = .ok m) := by
  constructor
  · intro m frame
    rw [encodeTMessage_ok_iff, decodeTMessage_ok_iff]
  · intro m frame
    rw [encodeRMessage_ok_iff, decodeRMessage_ok_iff]

end R9P.Wire
