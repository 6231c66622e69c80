import R9P.Base.Words
import R9P.Base.Checked

/-!
# Errors, qids, open modes, dialects and referrals

Library `Wire`. The plain data of `crates/core/src/{error,qid,mode,fid,codec,referral}.rs`
and the predicates the protocol code asks of it. Machine integers keep their width;
`Vec<u8>` and `&[u8]` are byte lists. Only the error texts that a modelled function can
produce are listed.
-/

namespace R9P.Wire
open Base

/-- Protocol error, carrying the bytes that an `Rerror` puts on the wire; `error.rs:42`. -/
structure Error where
  message : Bytes
  deriving DecidableEq, Repr

namespace Error

/-- Error from a literal text; `error.rs:53`. -/
def fromStatic (message : String) : Error := ⟨utf8 message⟩

end Error

/-- Result of a fallible protocol operation; `error.rs:3`. -/
abbrev Result (α : Type) := Except Error α

def EPERM : String := "permission denied"
def ENOENT : String := "file does not exist"
def EEXIST : String := "file exists"
def ENOTDIR : String := "not a directory"
def EBADTAG : String := "invalid tag"
def EDUPTAG : String := "duplicate tag"
def EBADFID : String := "unknown fid"
def EFIDINUSE : String := "fid already in use"
def EFIDLIMIT : String := "fid limit exceeded"
def EFIDBUSY : String := "fid busy"
def EFIDOPEN : String := "fid already open"
def EFIDNOTOPEN : String := "fid not open for requested operation"
def EBADWNAME : String := "bad walk name"
def EBADMODE : String := "invalid open mode"
def EBADDIROFFSET : String := "invalid directory offset"
def EBADMSIZE : String := "version: message size too small"
def ENOAUTH : String := "authentication not required"
def EWSTATTYPE : String := "wstat -- attempt to change type"
def EWSTATDEV : String := "wstat -- attempt to change dev"
def EWSTATQID : String := "wstat -- attempt to change qid"
def EWSTATATIME : String := "wstat -- attempt to change atime"
def EWSTATUID : String := "wstat -- attempt to change uid"
def EWSTATMUID : String := "wstat -- attempt to change muid"
def EWSTATDMDIR : String := "wstat -- attempt to change DMDIR bit"
def EWSTATDMSYMLINK : String := "wstat -- attempt to change DMSYMLINK bit"
def EWSTATDIRLENGTH : String := "wstat -- attempt to set non-zero directory length"
def ESYMLINKDIALECT : String := "symlink metadata requires negotiated 9P2000.R"

/-- Message identifier chosen by the client; `message.rs:4`. -/
abbrev Tag := UInt16

/-- File handle number chosen by the client; `fid.rs:3`. -/
abbrev Fid := UInt32

/-- The tag of version negotiation, never a request tag; `message.rs:6`. -/
def NOTAG : Tag := 0xffff

/-- The absent fid; `fid.rs:5`. -/
def NOFID : Fid := 0xffffffff

/-- Longest walk in one message; `message.rs:7`. -/
def MAXWELEM : Nat := 16

def QTDIR : UInt8 := 0x80
def QTAUTH : UInt8 := 0x08
def QTSYMLINK : UInt8 := 0x02
def DMDIR : UInt32 := 0x80000000
def DMSYMLINK : UInt32 := 0x02000000

/-- Server-side identity of a file; `qid.rs:12`. -/
structure Qid where
  qtype : UInt8
  version : UInt32
  path : UInt64
  deriving DecidableEq, Repr

namespace Qid

/-- Directory bit of the qid type; `qid.rs:43`. -/
def isDir (q : Qid) : Bool := q.qtype &&& QTDIR != 0

/-- Authentication-file bit of the qid type; `qid.rs:47`. -/
def isAuth (q : Qid) : Bool := q.qtype &&& QTAUTH != 0

/-- Symbolic-link bit of the qid type; `qid.rs:51`. -/
def isSymlink (q : Qid) : Bool := q.qtype &&& QTSYMLINK != 0

/-- Plain directory qid; `qid.rs:31`. -/
def dir (path : UInt64) : Qid := ⟨QTDIR, 0, path⟩

/-- Plain file qid; `qid.rs:27`. -/
def file (path : UInt64) : Qid := ⟨0, 0, path⟩

end Qid

namespace Mode

def OREAD : UInt8 := 0
def OWRITE : UInt8 := 1
def ORDWR : UInt8 := 2
def OEXEC : UInt8 := 3
def OTRUNC : UInt8 := 0x10
def ORCLOSE : UInt8 := 0x40
def ACCESS_MASK : UInt8 := 0x03
def KNOWN_MODE_BITS : UInt8 := ACCESS_MASK ||| OTRUNC ||| ORCLOSE

/-- Only known mode bits are set; `mode.rs:11`. -/
def isValid (mode : UInt8) : Bool := mode &&& ~~~KNOWN_MODE_BITS == 0

/-- The access bits allow reading; `mode.rs:15`. -/
def permitsRead (mode : UInt8) : Bool :=
  let access := mode &&& ACCESS_MASK
  access == OREAD || access == ORDWR || access == OEXEC

/-- The access bits allow writing; `mode.rs:19`. -/
def permitsWrite (mode : UInt8) : Bool :=
  let access := mode &&& ACCESS_MASK
  access == OWRITE || access == ORDWR

/-- A mode a directory may be opened with; `mode.rs:23`. -/
def isDirectoryMode (mode : UInt8) : Bool :=
  isValid mode && (mode &&& ~~~ORCLOSE) == OREAD

end Mode

/-- Protocol dialect; `codec.rs:22`. -/
inductive Variant where
  | plain
  | r
  deriving DecidableEq, Repr

namespace Variant

/-- The version string of a dialect; `codec.rs:30`. -/
def wireName : Variant → Bytes
  | plain => utf8 "9P2000"
  | r => utf8 "9P2000.R"

end Variant

/-- The peer asks for plain 9P2000, or for an extension of it; `codec.rs:64`. -/
def plainRequest (requested : Bytes) : Bool :=
  requested == Variant.plain.wireName ||
    match Variant.plain.wireName.isPrefixOf? requested with
    | some suffix => (utf8 ".").isPrefixOf suffix
    | none => false

namespace Variant

/-- The dialect a server configured for `self` answers a version request with;
`codec.rs:37`. -/
def accept (self : Variant) (requested : Bytes) : Option Variant :=
  if self = r ∧ requested = r.wireName then some r
  else if plainRequest requested then some plain else none

/-- Symbolic links exist only in the extended dialect; `codec.rs:44`. -/
def supportsSymlinks : Variant → Bool
  | plain => false
  | r => true

/-- Referrals exist only in the extended dialect; `codec.rs:48`. -/
def supportsReferrals : Variant → Bool
  | plain => false
  | r => true

/-- Atomic renames exist only in the extended dialect; `codec.rs:52`. -/
def supportsRenameAt : Variant → Bool
  | plain => false
  | r => true

end Variant

/-- Metadata record of a file; `stat.rs:7`. -/
structure Stat where
  type : UInt16
  dev : UInt32
  qid : Qid
  mode : UInt32
  atime : UInt32
  mtime : UInt32
  length : UInt64
  name : Bytes
  uid : Bytes
  gid : Bytes
  muid : Bytes
  deriving DecidableEq, Repr

/-- Direct target for one mounted prefix of a composed namespace; `referral.rs:8`. -/
structure NamespaceReferral where
  mountPath : Bytes
  endpoint : Bytes
  uname : Bytes
  aname : Bytes
  exportedRoot : Bytes
  authorityBoundary : Bytes
  generation : UInt64
  validForMs : UInt64
  deriving DecidableEq, Repr

/-- ASCII control bytes, zero included; `u8::is_ascii_control`. -/
def isAsciiControl (byte : UInt8) : Bool := byte < 0x20 || byte == 0x7f

/-- A canonical absolute path: no empty, dot or dot-dot segment, no trailing slash and
no control byte. The root alone needs permission; `referral.rs:74`. -/
def validateAbsolutePath (field : String) (path : Bytes) (allowRoot : Bool) : Result Unit :=
  let valid :=
    if path = utf8 "/" then allowRoot
    else
      (utf8 "/").isPrefixOf path && !(utf8 "/").isSuffixOf path &&
        ((path.splitOn 0x2f).drop 1).all (fun segment =>
          !segment.isEmpty && segment != utf8 "." && segment != utf8 "..") &&
        !path.any (fun byte => byte == 0 || isAsciiControl byte)
  if valid then .ok ()
  else .error (.fromStatic s!"namespace referral {field} must be a canonical absolute path")

/-- One of the four plain fields: present and free of control bytes;
`referral.rs:23` with `validate_nonempty`, `referral.rs:65`. -/
def validateText (field : String) (value : Bytes) : Result Unit :=
  if value.isEmpty then
    .error (.fromStatic s!"namespace referral {field} must not be empty")
  else if value.any (fun byte => byte == 0 || isAsciiControl byte) then
    .error (.fromStatic s!"namespace referral {field} contains a control byte")
  else .ok ()

/-- Every field of a referral is checked, in source order; `referral.rs:20`. -/
def NamespaceReferral.validate (self : NamespaceReferral) : Result Unit := do
  validateAbsolutePath "mount_path" self.mountPath false
  validateAbsolutePath "exported_root" self.exportedRoot true
  validateText "endpoint" self.endpoint
  validateText "uname" self.uname
  validateText "aname" self.aname
  validateText "authority_boundary" self.authorityBoundary
  if self.generation = 0 then
    .error (.fromStatic "namespace referral generation must be positive")
  else if self.validForMs = 0 then
    .error (.fromStatic "namespace referral valid_for_ms must be positive")
  else .ok ()

end R9P.Wire
