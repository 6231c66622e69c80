import R9P.Base.Stream
import R9P.Wire.Layout
import Mathlib.Data.List.Forall2

/-!
# Messages on a byte stream

Library `Wire`. `crates/core/src/codec.rs:76`: a message is read off a stream whose calls bring
the bytes in pieces of any size. `Truncated` and `Misframed` are the two ways in which what stands
behind the last whole frame can be no frame.
-/

namespace R9P.Wire
open Base Base.Checked
open Arrival (content)

/-- `std::io::ErrorKind`, as far as the reader tells them apart. -/
inductive IoErrorKind where
  | interrupted
  | connectionReset
  | brokenPipe
  | other
  deriving DecidableEq, Repr

/-- `std::io::Error`: its kind and its text. -/
structure IoError where
  kind : IoErrorKind
  text : String
  deriving DecidableEq, Repr

namespace IoError

/-- `ErrorKind::Interrupted`: the call is made again. -/
def retries (self : IoError) : Bool := self.kind == .interrupted

/-- `ErrorKind::ConnectionReset | ErrorKind::BrokenPipe`. -/
def hangsUp (self : IoError) : Bool := self.kind == .connectionReset || self.kind == .brokenPipe

end IoError

/-- What the calls of `Read::read` will bring. -/
abbrev ByteReader := List (Arrival UInt8 IoError)

/-! ### The code -/

/-- `Read::read_exact`, with the text of `codec.rs:155`. -/
def readExact (need : Nat) : Checked ByteReader Error Bytes :=
  .ofExec fun reader =>
    match Arrival.fill IoError.retries need reader with
    | (bytes, .full, rest) => (.ok bytes, rest)
    | (_, .eof, rest) =>
      (.error (.fromStatic "read 9P frame body: failed to fill whole buffer"), rest)
    | (_, .failed error, rest) =>
      (.error (.fromStatic ("read 9P frame body: " ++ error.text)), rest)

/-- `codec.rs:141`: the size is checked before anything behind it is read. -/
def readFrameBody (maxFrameSize : UInt32) (sizeBytes : Bytes) :
    Checked ByteReader Error (Option Bytes) := do
  let size := UInt32.ofNat (ofLeBytes sizeBytes)
  .refuseIf (size.toNat < FRAME_HEADER_SIZE) (.fromStatic s!"short 9P frame size {size}")
  .refuseIf (size > maxFrameSize)
    (.fromStatic s!"9P frame size {size} exceeds msize {maxFrameSize}")
  let rest ← readExact (size.toNat - 4)
  pure (some (sizeBytes ++ rest))

/-- `codec.rs:118`. -/
def readFrameChecked (maxFrameSize : UInt32) : Checked ByteReader Error (Option Bytes) :=
  .ofExec fun reader =>
    match Arrival.fill IoError.retries 4 reader with
    | (sizeBytes, .full, rest) => (readFrameBody maxFrameSize sizeBytes).exec rest
    | (sizeBytes, .eof, rest) =>
      (if sizeBytes.isEmpty then .ok none else .error (.fromStatic "truncated 9P frame size"), rest)
    | (sizeBytes, .failed error, rest) =>
      (if sizeBytes.isEmpty && error.hangsUp then .ok none
        else .error (.fromStatic ("read 9P frame size: " ++ error.text)), rest)

/-- A frame, if there is one, and what it decodes to. -/
def readMessageChecked {μ : Type} (decode : Bytes → Result μ) (maxFrameSize : UInt32) :
    Checked ByteReader Error (Option μ) := do
  match ← readFrameChecked maxFrameSize with
  | some frame => .ask fun _ => (decode frame).map some
  | none => pure none

/-- `codec.rs:76`. -/
def readTMessageChecked : UInt32 → Checked ByteReader Error (Option TMessage) :=
  readMessageChecked decodeTMessage

/-- `codec.rs:85`. -/
def readRMessageChecked : UInt32 → Checked ByteReader Error (Option RMessage) :=
  readMessageChecked decodeRMessage

/-- The results of so many calls. -/
def repeated {α : Type} (read : Checked ByteReader Error α) :
    Nat → ByteReader → List (Result α) × ByteReader
  | 0, reader => ([], reader)
  | count + 1, reader =>
    let first := read.exec reader
    let later := repeated read count first.2
    (first.1 :: later.1, later.2)

theorem repeated_succ {α : Type} {read : Checked ByteReader Error α} {count : Nat}
    {reader rest last : ByteReader} {result : Result α} {results : List (Result α)}
    (hf : read.exec reader = (result, rest)) (hl : repeated read count rest = (results, last)) :
    repeated read (count + 1) reader = (result :: results, last) := by
  rw [repeated]
  rw [hf, hl]

/-! ### Frames and what is none -/

/-- The size that the first four bytes announce. -/
def announced (bytes : Bytes) : Nat := ofLeBytes (bytes.take 4)

/-- A whole frame that may be read. -/
structure Framed (maxFrameSize : UInt32) (frame : Bytes) : Prop where
  header : FRAME_HEADER_SIZE ≤ frame.length
  size : announced frame = frame.length
  limit : frame.length ≤ maxFrameSize.toNat

/-- The stream ends inside a frame. -/
def Truncated (maxFrameSize : UInt32) (tail : Bytes) : Prop :=
  tail ≠ [] ∧ (tail.length < 4 ∨
    FRAME_HEADER_SIZE ≤ announced tail ∧ announced tail ≤ maxFrameSize.toNat ∧
      tail.length < announced tail)

/-- A frame announces a size that no frame may have. -/
def Misframed (maxFrameSize : UInt32) (tail : Bytes) : Prop :=
  4 ≤ tail.length ∧ (announced tail < FRAME_HEADER_SIZE ∨ maxFrameSize.toNat < announced tail)

/-- The reader brings the whole stream: in pieces, with interruptions, without a failure. -/
abbrev Healthy (reader : ByteReader) : Prop := Arrival.Healthy IoError.retries reader

section Sizes

variable {bytes : Bytes} {maxFrameSize : UInt32}

theorem announced_lt (bytes : Bytes) : announced bytes < 2 ^ 32 := by
  have hln : (bytes.take 4).length ≤ 4 := List.length_take_le 4 bytes
  calc announced bytes < 256 ^ (bytes.take 4).length := ofLeBytes_lt _
    _ ≤ 256 ^ 4 := Nat.pow_le_pow_right (by decide) hln

/-- The size that the code computes is the one announced. -/
theorem toNat_size (bytes : Bytes) : (UInt32.ofNat (ofLeBytes (bytes.take 4))).toNat =
    announced bytes := by
  exact Nat.mod_eq_of_lt (announced_lt bytes)

theorem announced_append {frame : Bytes} (h : 4 ≤ frame.length) (tail : Bytes) :
    announced (frame ++ tail) = announced frame := by
  unfold announced
  rw [List.take_append_of_le_length h]

/-- Behind a size that may be, exactly the rest of the frame is read. -/
theorem readFrameBody_of_size (hlw : FRAME_HEADER_SIZE ≤ announced bytes)
    (hh : announced bytes ≤ maxFrameSize.toNat) (reader : ByteReader) :
    (readFrameBody maxFrameSize (bytes.take 4)).exec reader =
      (readExact (announced bytes - 4) >>= fun rest => pure (some (bytes.take 4 ++ rest))).exec
        reader := by
  have hs : decide ((UInt32.ofNat (ofLeBytes (bytes.take 4))).toNat < FRAME_HEADER_SIZE) =
      false := by
    rw [toNat_size]
    exact decide_eq_false (by omega)
  have hlg : decide (UInt32.ofNat (ofLeBytes (bytes.take 4)) > maxFrameSize) = false := by
    apply decide_eq_false
    rw [gt_iff_lt, UInt32.lt_iff_toNat_lt, toNat_size]
    omega
  unfold readFrameBody
  rw [exec_bind_ok (exec_refuseIf_pass hs _ reader),
    exec_bind_ok (exec_refuseIf_pass hlg _ reader), toNat_size]

/-- A size that may not be is refused before anything behind it is read. -/
theorem readFrameBody_refused
    (h : announced bytes < FRAME_HEADER_SIZE ∨ maxFrameSize.toNat < announced bytes)
    (reader : ByteReader) :
    ∃ e, (readFrameBody maxFrameSize (bytes.take 4)).exec reader = (.error e, reader) := by
  unfold readFrameBody
  by_cases hs : announced bytes < FRAME_HEADER_SIZE
  · have hr : decide ((UInt32.ofNat (ofLeBytes (bytes.take 4))).toNat < FRAME_HEADER_SIZE) =
        true := by
      rw [toNat_size]
      exact decide_eq_true hs
    exact ⟨_, exec_bind_error (by rw [hr]; rfl) _⟩
  · have hp : decide ((UInt32.ofNat (ofLeBytes (bytes.take 4))).toNat < FRAME_HEADER_SIZE) =
        false := by
      rw [toNat_size]
      exact decide_eq_false hs
    have hr : decide (UInt32.ofNat (ofLeBytes (bytes.take 4)) > maxFrameSize) = true := by
      apply decide_eq_true
      rw [gt_iff_lt, UInt32.lt_iff_toNat_lt, toNat_size]
      exact h.resolve_left hs
    rw [exec_bind_ok (exec_refuseIf_pass hp _ reader)]
    exact ⟨_, exec_bind_error (by rw [hr]; rfl) _⟩

end Sizes

/-! ### One call -/

section Call

variable {reader : ByteReader} {maxFrameSize : UInt32} {frame tail : Bytes}

section

variable (healthy : Healthy reader)
include healthy

theorem readExact_full {need : Nat} (h : need ≤ (content reader).length) :
    ∃ rest, (readExact need).exec reader = (.ok ((content reader).take need), rest) ∧
      content rest = (content reader).drop need ∧ Healthy rest := by
  obtain ⟨rest, hf, hr⟩ := Arrival.fill_full healthy h
  refine ⟨rest, ?_, hr⟩
  show (match Arrival.fill IoError.retries need reader with
    | (bytes, .full, rest) => (Except.ok bytes, rest)
    | (_, .eof, rest) => _
    | (_, .failed error, rest) => _) = _
  rw [hf]

theorem readExact_eof {need : Nat} (h : (content reader).length < need) :
    (readExact need).exec reader =
      (.error (.fromStatic "read 9P frame body: failed to fill whole buffer"), []) := by
  show (match Arrival.fill IoError.retries need reader with
    | (bytes, .full, rest) => _
    | (_, .eof, rest) => (Except.error _, rest)
    | (_, .failed error, rest) => _) = _
  rw [Arrival.fill_eof healthy h]

/-- Where four bytes are to come, the body is read behind them. -/
theorem readFrameChecked_sized (h : 4 ≤ (content reader).length) :
    ∃ rest, (readFrameChecked maxFrameSize).exec reader =
        (readFrameBody maxFrameSize ((content reader).take 4)).exec rest ∧
      content rest = (content reader).drop 4 ∧ Healthy rest := by
  obtain ⟨rest, hf, hr⟩ := Arrival.fill_full healthy h
  refine ⟨rest, ?_, hr⟩
  show (match Arrival.fill IoError.retries 4 reader with
    | (sizeBytes, .full, rest) => (readFrameBody maxFrameSize sizeBytes).exec rest
    | (sizeBytes, .eof, rest) => _
    | (sizeBytes, .failed error, rest) => _) = _
  rw [hf]

/-- With fewer than four bytes to come, the call meets the end. -/
theorem readFrameChecked_short (h : (content reader).length < 4) :
    (readFrameChecked maxFrameSize).exec reader = (if (content reader).isEmpty then .ok none
        else .error (.fromStatic "truncated 9P frame size"), []) := by
  show (match Arrival.fill IoError.retries 4 reader with
    | (sizeBytes, .full, rest) => _
    | (sizeBytes, .eof, rest) => _
    | (sizeBytes, .failed error, rest) => _) = _
  rw [Arrival.fill_eof healthy h]

/-- A whole frame is read, and nothing behind it. -/
theorem readFrameChecked_frame (hf : Framed maxFrameSize frame)
    (hc : content reader = frame ++ tail) :
    ∃ rest, (readFrameChecked maxFrameSize).exec reader = (.ok (some frame), rest) ∧
      content rest = tail ∧ Healthy rest := by
  have hh : 7 ≤ frame.length := hf.header
  have hs : announced (frame ++ tail) = frame.length := by
    rw [announced_append (by omega), hf.size]
  have hlg : 4 ≤ (content reader).length := by
    rw [hc, List.length_append]
    omega
  obtain ⟨body, hb, hl, healthy⟩ :=
    @readFrameChecked_sized reader maxFrameSize healthy hlg
  rw [hc] at hb hl
  rw [hb, readFrameBody_of_size (by rw [hs]; exact hf.header) (by rw [hs]; exact hf.limit), hs]
  have hl : content body = frame.drop 4 ++ tail := by
    rw [hl, List.drop_append_of_le_length (by omega)]
  have hln : (frame.drop 4).length = frame.length - 4 := List.length_drop
  have hn : frame.length - 4 ≤ (content body).length := by
    rw [hl, List.length_append, hln]
    omega
  obtain ⟨rest, he, hr, healthy⟩ := readExact_full healthy hn
  refine ⟨rest, ?_, ?_, healthy⟩
  · have hbd : (frame.drop 4 ++ tail).take (frame.length - 4) = frame.drop 4 := by
      rw [List.take_append_of_le_length (by omega), List.take_of_length_le (by omega)]
    rw [exec_bind_ok he, hl, hbd, List.take_append_of_le_length (by omega)]
    show (Except.ok (some (frame.take 4 ++ frame.drop 4)), rest) = _
    rw [List.take_append_drop]
  · rw [hr, hl, List.drop_append_of_le_length (by omega),
      List.drop_of_length_le (by omega), List.nil_append]

/-- At the end of the stream there is no frame. -/
theorem readFrameChecked_end (hc : content reader = []) :
    (readFrameChecked maxFrameSize).exec reader = (.ok none, []) := by
  rw [readFrameChecked_short healthy (by rw [hc]; decide), hc]
  rfl

/-- A frame that the stream does not bring to its end is an error. -/
theorem readFrameChecked_truncated (h : Truncated maxFrameSize (content reader)) :
    ∃ e, (readFrameChecked maxFrameSize).exec reader = (.error e, []) := by
  obtain ⟨hne, he⟩ := h
  by_cases hs : (content reader).length < 4
  · rw [readFrameChecked_short healthy hs, if_neg (by rwa [List.isEmpty_iff])]
    exact ⟨_, rfl⟩
  · obtain ⟨hlw, hh, hlt⟩ := he.resolve_left hs
    obtain ⟨body, hb, hl, healthy⟩ :=
      @readFrameChecked_sized reader maxFrameSize healthy (by omega)
    have hef : (content body).length < announced (content reader) - 4 := by
      rw [hl, List.length_drop]
      omega
    rw [hb, readFrameBody_of_size hlw hh,
      exec_bind_error (readExact_eof healthy hef)]
    exact ⟨_, rfl⟩

/-- A size that may not be is an error that takes the size off the stream and nothing else. -/
theorem readFrameChecked_misframed (h : Misframed maxFrameSize (content reader)) :
    ∃ e rest, (readFrameChecked maxFrameSize).exec reader = (.error e, rest) ∧
      content rest = (content reader).drop 4 := by
  obtain ⟨hln, hs⟩ := h
  obtain ⟨body, hb, hl, _⟩ := @readFrameChecked_sized reader maxFrameSize healthy hln
  obtain ⟨e, he⟩ := readFrameBody_refused hs body
  exact ⟨e, body, hb.trans he, hl⟩

end

end Call

/-! ### Message after message -/

section Messages

variable {μ : Type} {decode : Bytes → Result μ} {maxFrameSize : UInt32} {reader : ByteReader}
  {tail : Bytes}

/-- What repeated calls come to: the messages in their order, and behind the last of them
nothing, or an error that takes no more than the frame it is about. -/
def ReadsOff (read : UInt32 → Checked ByteReader Error (Option μ)) (maxFrameSize : UInt32)
    (messages : List μ) (tail : Bytes) (reader : ByteReader) : Prop :=
  ∃ rest, repeated (read maxFrameSize) messages.length reader =
      (messages.map fun message => .ok (some message), rest) ∧
    content rest = tail ∧
    (tail = [] → (read maxFrameSize).exec rest = (.ok none, [])) ∧
    (Truncated maxFrameSize tail → ∃ e, (read maxFrameSize).exec rest = (.error e, [])) ∧
    (Misframed maxFrameSize tail → ∃ e after,
      (read maxFrameSize).exec rest = (.error e, after) ∧ content after = tail.drop 4)

/-- The call behind the last message. -/
theorem readsOff_nil (healthy : Healthy reader) (hc : content reader = tail) :
    ReadsOff (readMessageChecked decode) maxFrameSize [] tail reader := by
  refine ⟨reader, rfl, hc, ?_, ?_, ?_⟩
  · intro ht
    unfold readMessageChecked
    rw [exec_bind_ok (readFrameChecked_end healthy (hc.trans ht))]
    rfl
  · intro ht
    obtain ⟨e, he⟩ := readFrameChecked_truncated healthy (by rwa [hc])
    exact ⟨e, exec_bind_error he _⟩
  · intro ht
    obtain ⟨e, after, he, ha⟩ := readFrameChecked_misframed healthy (by rwa [hc])
    exact ⟨e, after, exec_bind_error he _, by rw [ha, hc]⟩

/-- One call takes one message off the stream. -/
theorem readMessageChecked_message {message : μ} {frame : Bytes} (healthy : Healthy reader)
    (hf : Framed maxFrameSize frame) (hd : decode frame = .ok message)
    (hc : content reader = frame ++ tail) :
    ∃ rest, (readMessageChecked decode maxFrameSize).exec reader = (.ok (some message), rest) ∧
      content rest = tail ∧ Healthy rest := by
  obtain ⟨rest, he, hr⟩ := readFrameChecked_frame healthy hf hc
  refine ⟨rest, ?_, hr⟩
  unfold readMessageChecked
  rw [exec_bind_ok he]
  show ((decode frame).map some, rest) = _
  rw [hd]
  rfl

/-- So many frames, so many messages: by induction on the frames, with the stream that is left. -/
theorem readsOff_frames {messages : List μ} {frames : List Bytes} (hf : List.Forall₂
      (fun message frame => Framed maxFrameSize frame ∧ decode frame = .ok message) messages frames)
    (healthy : Healthy reader) (hc : content reader = frames.flatten ++ tail) :
    ReadsOff (readMessageChecked decode) maxFrameSize messages tail reader := by
  induction hf generalizing reader with
  | nil => exact readsOff_nil healthy hc
  | @cons message frame messages frames hh _ ih =>
    rw [List.flatten_cons, List.append_assoc] at hc
    obtain ⟨rest, he, hl, healthy⟩ :=
      readMessageChecked_message healthy hh.1 hh.2 hc
    obtain ⟨last, hcl, hls⟩ := ih healthy hl
    refine ⟨last, ?_, hls⟩
    exact repeated_succ he hcl

theorem announced_frameBytes {messageType : UInt8} {tag : Tag} {body : Bytes}
    (h : 7 + body.length < 2 ^ 32) : announced (frameBytes messageType tag body) =
      (frameBytes messageType tag body).length := by
  have hs : (frameBytes messageType tag body).take 4 = leBytes 4 (7 + body.length) := by
    unfold frameBytes
    rw [List.take_append_of_le_length (by rw [length_leBytes]),
      List.take_of_length_le (by rw [length_leBytes])]
  unfold announced
  rw [hs, ofLeBytes_leBytes 4 _ (by omega)]
  unfold frameBytes u16Bytes
  simp only [List.length_append, List.length_cons, length_leBytes]
  omega

/-- What the sender lets pass is a frame that the reader may read. -/
theorem framed_of_checkMsize {messageType : UInt8} {tag : Tag} {body frame : Bytes}
    (hb : 7 + body.length < 2 ^ 32)
    (h : checkMsize maxFrameSize (frameBytes messageType tag body) = .ok frame) :
    frame = frameBytes messageType tag body ∧ Framed maxFrameSize frame := by
  have hln : (frameBytes messageType tag body).length = 7 + body.length := by
    unfold frameBytes u16Bytes
    simp only [List.length_append, List.length_cons, length_leBytes]
    omega
  obtain ⟨len, hf, h⟩ := bind_ok.mp h
  have hs : len.toNat = 7 + body.length := by
    unfold tryU32 at hf
    rw [hln, if_pos hb] at hf
    cases hf
    rw [UInt32.toNat_ofNat']
    exact Nat.mod_eq_of_lt hb
  by_cases hl : len > maxFrameSize
  · rw [if_pos hl] at h
    cases h
  · rw [if_neg hl] at h
    cases h
    rw [gt_iff_lt, UInt32.lt_iff_toNat_lt, hs] at hl
    refine ⟨rfl, ?_, announced_frameBytes hb, ?_⟩
    · rw [hln]
      exact Nat.le_add_right 7 _
    · rw [hln]
      omega

theorem framed_of_encodeTMessageChecked {message : TMessage} {frame : Bytes}
    (h : encodeTMessageChecked message maxFrameSize = .ok frame) :
    Framed maxFrameSize frame ∧ decodeTMessage frame = .ok message := by
  obtain ⟨encoded, he, hc⟩ := bind_ok.mp h
  obtain ⟨hf, rfl⟩ := (encodeTMessage_ok_iff message encoded).mp he
  obtain ⟨rfl, hfr⟩ := framed_of_checkMsize hf.2 hc
  exact ⟨hfr, (decodeTMessage_ok_iff message _).mpr ⟨hf, rfl⟩⟩

theorem framed_of_encodeRMessageChecked {message : RMessage} {frame : Bytes}
    (h : encodeRMessageChecked message maxFrameSize = .ok frame) :
    Framed maxFrameSize frame ∧ decodeRMessage frame = .ok message := by
  obtain ⟨encoded, he, hc⟩ := bind_ok.mp h
  obtain ⟨hf, rfl⟩ := (encodeRMessage_ok_iff message encoded).mp he
  obtain ⟨rfl, hfr⟩ := framed_of_checkMsize hf.2 hc
  exact ⟨hfr, (decodeRMessage_ok_iff message _).mpr ⟨hf, rfl⟩⟩

end Messages

/-- Whatever pieces a stream comes in, repeated calls return the messages that were sent, in their
order. Behind the last of them they return nothing at the end of the stream, and an error where
the stream ends inside a frame or a size may not be; such an error takes no more off the stream
than the frame it is about. -/
theorem framed_messages_delivered (maxFrameSize : UInt32) (reader : ByteReader)
    (healthy : Healthy reader) (frames : List Bytes) (tail : Bytes)
    (hcontent : content reader = frames.flatten ++ tail) :
    (∀ messages, List.Forall₂
        (fun message frame => encodeTMessageChecked message maxFrameSize = .ok frame)
        messages frames →
      ReadsOff readTMessageChecked maxFrameSize messages tail reader) ∧
    (∀ messages, List.Forall₂
        (fun message frame => encodeRMessageChecked message maxFrameSize = .ok frame)
        messages frames →
      ReadsOff readRMessageChecked maxFrameSize messages tail reader) := by
  constructor
  · intro messages hs
    exact readsOff_frames (hs.imp fun _ _ => framed_of_encodeTMessageChecked) healthy hcontent
  · intro messages hs
    exact readsOff_frames (hs.imp fun _ _ => framed_of_encodeRMessageChecked) healthy hcontent

/-- A `Tclunk` and a `Tflush`, with the second cut off: one message and an error. -/
theorem framed_messages_delivered_cut :
    ReadsOff readTMessageChecked 64 [.clunk 1 2] [9, 0, 0, 0, 108]
      [.chunk [11, 0], .failed ⟨.interrupted, "interrupted"⟩,
        .chunk [0, 0, 120, 1, 0, 2, 0, 0, 0, 9, 0], .chunk [0, 0, 108]] ∧
    Truncated 64 [9, 0, 0, 0, 108] :=
  ⟨(framed_messages_delivered 64 _ (by simp [Healthy, Arrival.Healthy, IoError.retries])
    [[11, 0, 0, 0, 120, 1, 0, 2, 0, 0, 0]] [9, 0, 0, 0, 108] rfl).1 [.clunk 1 2]
      (.cons (by decide +kernel) .nil), by decide, .inr (by decide)⟩

end R9P.Wire
