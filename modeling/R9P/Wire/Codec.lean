import R9P.Base.Format
import R9P.Wire.Message

/-!
# Message encoding and decoding

Library `Wire`. The encoders and decoders of `crates/core/src/{stat,codec}.rs`. An
encoder appends its fields to a growing frame and patches the frame size in at the
end; a decoder reads the same fields off a cursor and refuses leftover bytes. Lengths
are counted in `Nat`: a slice is shorter than `2^63`, so a cursor position plus a
`u32` length never overflows a `usize` and the source's overflow branch is unreachable.
-/

namespace R9P.Wire
open Base

def FRAME_HEADER_SIZE : Nat := 7
def RREAD_HEADER_SIZE : UInt32 := 11
def TWRITE_HEADER_SIZE : UInt32 := 23
def IOUNIT_HEADER_SIZE : UInt32 := 24
def DEFAULT_MSIZE : UInt32 := 8192
def MIN_MSIZE : UInt32 := 256
def MAX_MSIZE : UInt32 := 1024 * 1024

/-- `u32::saturating_sub`. -/
def saturatingSub (a b : UInt32) : UInt32 := if a ≤ b then 0 else a - b

/-- A read reply must fit its payload into `msize`; `codec.rs:72`. -/
def clampReadCount (msize requested : UInt32) : UInt32 :=
  min requested (saturatingSub msize RREAD_HEADER_SIZE)

/-- Largest payload of one write request; `codec.rs:158`. -/
def maxWritePayload (msize : UInt32) : UInt32 := saturatingSub msize TWRITE_HEADER_SIZE

/-- Largest advertised I/O unit; `codec.rs:162`. -/
def maxIounit (msize : UInt32) : UInt32 := saturatingSub msize IOUNIT_HEADER_SIZE

/-! ### Writing fields, `stat.rs:157` -/

def pushU8 (out : Bytes) (value : UInt8) : Bytes := out ++ [value]
def pushU16 (out : Bytes) (value : UInt16) : Bytes := out ++ leBytes 2 value.toNat
def pushU32 (out : Bytes) (value : UInt32) : Bytes := out ++ leBytes 4 value.toNat
def pushU64 (out : Bytes) (value : UInt64) : Bytes := out ++ leBytes 8 value.toNat

/-- `stat.rs:169`. -/
def pushQid (out : Bytes) (qid : Qid) : Bytes :=
  pushU64 (pushU32 (pushU8 out qid.qtype) qid.version) qid.path

/-- `u16::try_from` of a length. -/
def tryU16 (n : Nat) (e : String) : Result UInt16 :=
  if n < 2 ^ 16 then .ok (UInt16.ofNat n) else .error (.fromStatic e)

/-- `u32::try_from` of a length. -/
def tryU32 (n : Nat) (e : String) : Result UInt32 :=
  if n < 2 ^ 32 then .ok (UInt32.ofNat n) else .error (.fromStatic e)

/-- Length-prefixed byte string; `stat.rs:175`. -/
def pushString (out value : Bytes) : Result Bytes := do
  let len ← tryU16 value.length "string too large"
  .ok (pushU16 out len ++ value)

/-- Append the fields of a list one after the other. -/
def pushAll {α : Type} (push : Bytes → α → Result Bytes) (out : Bytes) : List α → Result Bytes
  | [] => .ok out
  | a :: rest => do
    let out ← push out a
    pushAll push out rest

/-! ### Reading fields, `stat.rs:182` -/

namespace Cursor

/-- `stat.rs:234`. -/
def take (len : Nat) : Decoder UInt8 Error Bytes :=
  Decoder.take len (.fromStatic "truncated frame")

def u8 : Decoder UInt8 Error UInt8 := (fun bytes => bytes.getD 0 0) <$> take 1
def u16 : Decoder UInt8 Error UInt16 := (fun bytes => UInt16.ofNat (ofLeBytes bytes)) <$> take 2
def u32 : Decoder UInt8 Error UInt32 := (fun bytes => UInt32.ofNat (ofLeBytes bytes)) <$> take 4
def u64 : Decoder UInt8 Error UInt64 := (fun bytes => UInt64.ofNat (ofLeBytes bytes)) <$> take 8

/-- `stat.rs:218`. -/
def qid : Decoder UInt8 Error Qid := do
  let qtype ← u8
  let version ← u32
  let path ← u64
  pure ⟨qtype, version, path⟩

/-- `stat.rs:225`. -/
def string : Decoder UInt8 Error Bytes := do
  let len ← u16
  take len.toNat

/-- `stat.rs:230`. -/
def bytes (len : Nat) : Decoder UInt8 Error Bytes := take len

end Cursor

/-! ### Stat records -/

/-- `stat.rs:56`: the fields, behind their own total size. -/
def Stat.encode (self : Stat) : Result Bytes := do
  let body := pushU16 [] self.type
  let body := pushU32 body self.dev
  let body := pushQid body self.qid
  let body := pushU32 body self.mode
  let body := pushU32 body self.atime
  let body := pushU32 body self.mtime
  let body := pushU64 body self.length
  let body ← pushString body self.name
  let body ← pushString body self.uid
  let body ← pushString body self.gid
  let body ← pushString body self.muid
  let size ← tryU16 body.length "stat too large"
  .ok (pushU16 [] size ++ body)

/-- The fields of a stat record in wire order; `stat.rs:84`. -/
def Stat.fields : Decoder UInt8 Error Stat := do
  let type ← Cursor.u16
  let dev ← Cursor.u32
  let qid ← Cursor.qid
  let mode ← Cursor.u32
  let atime ← Cursor.u32
  let mtime ← Cursor.u32
  let length ← Cursor.u64
  let name ← Cursor.string
  let uid ← Cursor.string
  let gid ← Cursor.string
  let muid ← Cursor.string
  pure ⟨type, dev, qid, mode, atime, mtime, length, name, uid, gid, muid⟩

/-- `stat.rs:77`: the size prefix must count exactly what follows it. -/
def Stat.decode (encoded : Bytes) : Result Stat :=
  Decoder.whole
    (do
      let size ← Cursor.u16
      Decoder.expectRemaining size.toNat (.fromStatic "stat size mismatch")
      Stat.fields)
    (.fromStatic "trailing stat bytes") encoded

/-! ### Frames -/

/-- `codec.rs:555`: a size still to be filled in, the type byte and the tag. -/
def framePrefix (messageType : UInt8) (tag : Tag) : Bytes :=
  pushU16 (pushU8 (pushU32 [] 0) messageType) tag

/-- `codec.rs:563`: the frame size counts the whole frame. -/
def finishFrame (frame : Bytes) : Result Bytes := do
  let size ← tryU32 frame.length "frame too large"
  .ok (leBytes 4 size.toNat ++ frame.drop 4)

/-- `codec.rs:166`. -/
def validateFrameSize (frame : Bytes) : Result Unit := do
  if frame.length < FRAME_HEADER_SIZE then
    .error (.fromStatic "truncated frame")
  else
    let size := UInt32.ofNat (ofLeBytes (frame.take 4))
    let actual ← tryU32 frame.length "frame too large"
    if size ≠ actual then .error (.fromStatic "frame size mismatch") else .ok ()

/-- `codec.rs:569`. -/
def encodeReferral (out : Bytes) (referral : NamespaceReferral) : Result Bytes := do
  referral.validate
  let out ← pushString out referral.mountPath
  let out ← pushString out referral.endpoint
  let out ← pushString out referral.uname
  let out ← pushString out referral.aname
  let out ← pushString out referral.exportedRoot
  let out ← pushString out referral.authorityBoundary
  .ok (pushU64 (pushU64 out referral.generation) referral.validForMs)

/-- `codec.rs:586`. -/
def decodeReferral : Decoder UInt8 Error NamespaceReferral := do
  let mountPath ← Cursor.string
  let endpoint ← Cursor.string
  let uname ← Cursor.string
  let aname ← Cursor.string
  let exportedRoot ← Cursor.string
  let authorityBoundary ← Cursor.string
  let generation ← Cursor.u64
  let validForMs ← Cursor.u64
  let referral : NamespaceReferral :=
    ⟨mountPath, endpoint, uname, aname, exportedRoot, authorityBoundary, generation, validForMs⟩
  Decoder.check referral.validate
  pure referral

/-- The fields of a request after the common header; `codec.rs:374`. -/
def pushTMessage (frame : Bytes) : TMessage → Result Bytes
  | .version _ msize version => pushString (pushU32 frame msize) version
  | .auth _ afid uname aname => do
    let frame ← pushString (pushU32 frame afid) uname
    pushString frame aname
  | .attach _ fid afid uname aname => do
    let frame ← pushString (pushU32 (pushU32 frame fid) afid) uname
    pushString frame aname
  | .flush _ oldtag => .ok (pushU16 frame oldtag)
  | .walk _ fid newfid wnames =>
    if wnames.length > MAXWELEM then .error (.fromStatic "name too long")
    else do
      let frame := pushU32 (pushU32 frame fid) newfid
      let nwname ← tryU16 wnames.length "name too long"
      pushAll pushString (pushU16 frame nwname) wnames
  | .open _ fid mode => .ok (pushU8 (pushU32 frame fid) mode)
  | .create _ fid name perm mode => do
    let frame ← pushString (pushU32 frame fid) name
    .ok (pushU8 (pushU32 frame perm) mode)
  | .read _ fid offset count => .ok (pushU32 (pushU64 (pushU32 frame fid) offset) count)
  | .write _ fid offset data => do
    let count ← tryU32 data.length "write too large"
    .ok (pushU32 (pushU64 (pushU32 frame fid) offset) count ++ data)
  | .clunk _ fid | .remove _ fid | .stat _ fid => .ok (pushU32 frame fid)
  | .wstat _ fid stat => do
    let encoded ← stat.encode
    let nstat ← tryU16 encoded.length "stat too large"
    .ok (pushU16 (pushU32 frame fid) nstat ++ encoded)
  | .renameAt _ olddirfid oldname newdirfid newname => do
    let frame ← pushString (pushU32 frame olddirfid) oldname
    pushString (pushU32 frame newdirfid) newname
  | .referrals _ fid => .ok (pushU32 frame fid)

/-- `codec.rs:374`. -/
def encodeTMessage (message : TMessage) : Result Bytes := do
  let frame ← pushTMessage (framePrefix message.messageType message.tag) message
  finishFrame frame

/-- The fields of a response after the common header; `codec.rs:482`. -/
def pushRMessage (frame : Bytes) : RMessage → Result Bytes
  | .version _ msize version => pushString (pushU32 frame msize) version
  | .auth _ aqid => .ok (pushQid frame aqid)
  | .attach _ qid => .ok (pushQid frame qid)
  | .error _ ename => pushString frame ename
  | .flush _ | .clunk _ | .remove _ | .wstat _ | .renameAt _ => .ok frame
  | .walk _ qids =>
    if qids.length > MAXWELEM then .error (.fromStatic "name too long")
    else do
      let nwqid ← tryU16 qids.length "name too long"
      pushAll (fun out qid => .ok (pushQid out qid)) (pushU16 frame nwqid) qids
  | .open _ qid iounit | .create _ qid iounit => .ok (pushU32 (pushQid frame qid) iounit)
  | .read _ data => do
    let count ← tryU32 data.length "read too large"
    .ok (pushU32 frame count ++ data)
  | .write _ count => .ok (pushU32 frame count)
  | .stat _ stat => do
    let encoded ← stat.encode
    let nstat ← tryU16 encoded.length "stat too large"
    .ok (pushU16 frame nstat ++ encoded)
  | .referrals _ referrals => do
    let count ← tryU16 referrals.length "too many namespace referrals"
    pushAll encodeReferral (pushU16 frame count) referrals

/-- `codec.rs:482`. -/
def encodeRMessage (message : RMessage) : Result Bytes := do
  let frame ← pushRMessage (framePrefix message.messageType message.tag) message
  finishFrame frame

/-- Refuse a frame that exceeds the negotiated size; `codec.rs:473` and `codec.rs:546`. -/
def checkMsize (msize : UInt32) (frame : Bytes) : Result Bytes := do
  let len ← tryU32 frame.length "frame too large"
  if len > msize then .error (.fromStatic "frame exceeds msize") else .ok frame

/-- `codec.rs:473`. -/
def encodeTMessageChecked (message : TMessage) (msize : UInt32) : Result Bytes :=
  encodeTMessage message >>= checkMsize msize

/-- `codec.rs:546`. -/
def encodeRMessageChecked (message : RMessage) (msize : UInt32) : Result Bytes :=
  encodeRMessage message >>= checkMsize msize

/-- The fields that a request type byte announces; `codec.rs:185`. -/
def readTMessage (messageType : UInt8) (tag : Tag) : Decoder UInt8 Error TMessage :=
  match messageType with
  | TVERSION => do
    let msize ← Cursor.u32
    let version ← Cursor.string
    pure (.version tag msize version)
  | TAUTH => do
    let afid ← Cursor.u32
    let uname ← Cursor.string
    let aname ← Cursor.string
    pure (.auth tag afid uname aname)
  | TATTACH => do
    let fid ← Cursor.u32
    let afid ← Cursor.u32
    let uname ← Cursor.string
    let aname ← Cursor.string
    pure (.attach tag fid afid uname aname)
  | TFLUSH => do
    let oldtag ← Cursor.u16
    pure (.flush tag oldtag)
  | TWALK => do
    let fid ← Cursor.u32
    let newfid ← Cursor.u32
    let nwname ← Cursor.u16
    Decoder.refuse (nwname.toNat > MAXWELEM) (.fromStatic "name too long")
    let wnames ← Cursor.string.replicate nwname.toNat
    pure (.walk tag fid newfid wnames)
  | TOPEN => do
    let fid ← Cursor.u32
    let mode ← Cursor.u8
    pure (.open tag fid mode)
  | TCREATE => do
    let fid ← Cursor.u32
    let name ← Cursor.string
    let perm ← Cursor.u32
    let mode ← Cursor.u8
    pure (.create tag fid name perm mode)
  | TREAD => do
    let fid ← Cursor.u32
    let offset ← Cursor.u64
    let count ← Cursor.u32
    pure (.read tag fid offset count)
  | TWRITE => do
    let fid ← Cursor.u32
    let offset ← Cursor.u64
    let count ← Cursor.u32
    let data ← Cursor.bytes count.toNat
    pure (.write tag fid offset data)
  | TCLUNK => do
    let fid ← Cursor.u32
    pure (.clunk tag fid)
  | TREMOVE => do
    let fid ← Cursor.u32
    pure (.remove tag fid)
  | TSTAT => do
    let fid ← Cursor.u32
    pure (.stat tag fid)
  | TWSTAT => do
    let fid ← Cursor.u32
    let nstat ← Cursor.u16
    let encoded ← Cursor.bytes nstat.toNat
    let stat ← Decoder.check (Stat.decode encoded)
    pure (.wstat tag fid stat)
  | TRENAMEAT => do
    let olddirfid ← Cursor.u32
    let oldname ← Cursor.string
    let newdirfid ← Cursor.u32
    let newname ← Cursor.string
    pure (.renameAt tag olddirfid oldname newdirfid newname)
  | TREFERRALS => do
    let fid ← Cursor.u32
    pure (.referrals tag fid)
  | _ => throw (.fromStatic "unknown message type")

/-- The fields that a response type byte announces; `codec.rs:288`. -/
def readRMessage (messageType : UInt8) (tag : Tag) : Decoder UInt8 Error RMessage :=
  match messageType with
  | RVERSION => do
    let msize ← Cursor.u32
    let version ← Cursor.string
    pure (.version tag msize version)
  | RAUTH => do
    let aqid ← Cursor.qid
    pure (.auth tag aqid)
  | RATTACH => do
    let qid ← Cursor.qid
    pure (.attach tag qid)
  | RERROR => do
    let ename ← Cursor.string
    pure (.error tag ename)
  | RFLUSH => pure (.flush tag)
  | RWALK => do
    let nwqid ← Cursor.u16
    Decoder.refuse (nwqid.toNat > MAXWELEM) (.fromStatic "name too long")
    let qids ← Cursor.qid.replicate nwqid.toNat
    pure (.walk tag qids)
  | ROPEN => do
    let qid ← Cursor.qid
    let iounit ← Cursor.u32
    pure (.open tag qid iounit)
  | RCREATE => do
    let qid ← Cursor.qid
    let iounit ← Cursor.u32
    pure (.create tag qid iounit)
  | RREAD => do
    let count ← Cursor.u32
    let data ← Cursor.bytes count.toNat
    pure (.read tag data)
  | RWRITE => do
    let count ← Cursor.u32
    pure (.write tag count)
  | RCLUNK => pure (.clunk tag)
  | RREMOVE => pure (.remove tag)
  | RSTAT => do
    let nstat ← Cursor.u16
    let encoded ← Cursor.bytes nstat.toNat
    let stat ← Decoder.check (Stat.decode encoded)
    pure (.stat tag stat)
  | RWSTAT => pure (.wstat tag)
  | RRENAMEAT => pure (.renameAt tag)
  | RREFERRALS => do
    let count ← Cursor.u16
    let referrals ← decodeReferral.replicate count.toNat
    pure (.referrals tag referrals)
  | _ => throw (.fromStatic "unknown message type")

/-- Decode the fields behind a valid frame header; `codec.rs:180` and `codec.rs:284`. -/
def decodeFrame {α : Type} (read : UInt8 → Tag → Decoder UInt8 Error α) (frame : Bytes) :
    Result α := do
  validateFrameSize frame
  let messageType := frame.getD 4 0
  let tag := UInt16.ofNat (ofLeBytes ((frame.drop 5).take 2))
  (read messageType tag).whole (.fromStatic "trailing frame bytes")
    (frame.drop FRAME_HEADER_SIZE)

/-- `codec.rs:180`. -/
def decodeTMessage (frame : Bytes) : Result TMessage := decodeFrame readTMessage frame

/-- `codec.rs:284`. -/
def decodeRMessage (frame : Bytes) : Result RMessage := decodeFrame readRMessage frame

end R9P.Wire
