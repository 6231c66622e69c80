import R9P.Wire.Data

/-!
# 9P messages

Library `Wire`. The fifteen requests and sixteen responses of `crates/core/src/message.rs`,
with their tags and type bytes. `Rerror` has no request of its own.
-/

namespace R9P.Wire
open Base

/-! ### Type bytes, `message.rs:11` -/

@[match_pattern] abbrev TRENAMEAT : UInt8 := 74
@[match_pattern] abbrev RRENAMEAT : UInt8 := 75
@[match_pattern] abbrev TVERSION : UInt8 := 100
@[match_pattern] abbrev RVERSION : UInt8 := 101
@[match_pattern] abbrev TAUTH : UInt8 := 102
@[match_pattern] abbrev RAUTH : UInt8 := 103
@[match_pattern] abbrev TATTACH : UInt8 := 104
@[match_pattern] abbrev RATTACH : UInt8 := 105
@[match_pattern] abbrev RERROR : UInt8 := 107
@[match_pattern] abbrev TFLUSH : UInt8 := 108
@[match_pattern] abbrev RFLUSH : UInt8 := 109
@[match_pattern] abbrev TWALK : UInt8 := 110
@[match_pattern] abbrev RWALK : UInt8 := 111
@[match_pattern] abbrev TOPEN : UInt8 := 112
@[match_pattern] abbrev ROPEN : UInt8 := 113
@[match_pattern] abbrev TCREATE : UInt8 := 114
@[match_pattern] abbrev RCREATE : UInt8 := 115
@[match_pattern] abbrev TREAD : UInt8 := 116
@[match_pattern] abbrev RREAD : UInt8 := 117
@[match_pattern] abbrev TWRITE : UInt8 := 118
@[match_pattern] abbrev RWRITE : UInt8 := 119
@[match_pattern] abbrev TCLUNK : UInt8 := 120
@[match_pattern] abbrev RCLUNK : UInt8 := 121
@[match_pattern] abbrev TREMOVE : UInt8 := 122
@[match_pattern] abbrev RREMOVE : UInt8 := 123
@[match_pattern] abbrev TSTAT : UInt8 := 124
@[match_pattern] abbrev RSTAT : UInt8 := 125
@[match_pattern] abbrev TWSTAT : UInt8 := 126
@[match_pattern] abbrev RWSTAT : UInt8 := 127
@[match_pattern] abbrev TREFERRALS : UInt8 := 200
@[match_pattern] abbrev RREFERRALS : UInt8 := 201

/-- Requests; `message.rs:46`. -/
inductive TMessage where
  | version (tag : Tag) (msize : UInt32) (version : Bytes)
  | auth (tag : Tag) (afid : Fid) (uname aname : Bytes)
  | attach (tag : Tag) (fid afid : Fid) (uname aname : Bytes)
  | flush (tag oldtag : Tag)
  | walk (tag : Tag) (fid newfid : Fid) (wnames : List Bytes)
  | open (tag : Tag) (fid : Fid) (mode : UInt8)
  | create (tag : Tag) (fid : Fid) (name : Bytes) (perm : UInt32) (mode : UInt8)
  | read (tag : Tag) (fid : Fid) (offset : UInt64) (count : UInt32)
  | write (tag : Tag) (fid : Fid) (offset : UInt64) (data : Bytes)
  | clunk (tag : Tag) (fid : Fid)
  | remove (tag : Tag) (fid : Fid)
  | stat (tag : Tag) (fid : Fid)
  | wstat (tag : Tag) (fid : Fid) (stat : Stat)
  | renameAt (tag : Tag) (olddirfid : Fid) (oldname : Bytes) (newdirfid : Fid) (newname : Bytes)
  | referrals (tag : Tag) (fid : Fid)
  deriving DecidableEq, Repr

namespace TMessage

/-- The tag of a request; `message.rs:129`. -/
def tag : TMessage → Tag
  | version tag .. | auth tag .. | attach tag .. | flush tag .. | walk tag .. | .open tag ..
  | create tag .. | read tag .. | write tag .. | clunk tag .. | remove tag .. | stat tag ..
  | wstat tag .. | renameAt tag .. | referrals tag .. => tag

/-- The type byte of a request; `message.rs:149`. -/
def messageType : TMessage → UInt8
  | version .. => TVERSION
  | auth .. => TAUTH
  | attach .. => TATTACH
  | flush .. => TFLUSH
  | walk .. => TWALK
  | .open .. => TOPEN
  | create .. => TCREATE
  | read .. => TREAD
  | write .. => TWRITE
  | clunk .. => TCLUNK
  | remove .. => TREMOVE
  | stat .. => TSTAT
  | wstat .. => TWSTAT
  | renameAt .. => TRENAMEAT
  | referrals .. => TREFERRALS

end TMessage

/-- Responses; `message.rs:171`. -/
inductive RMessage where
  | version (tag : Tag) (msize : UInt32) (version : Bytes)
  | auth (tag : Tag) (aqid : Qid)
  | attach (tag : Tag) (qid : Qid)
  | error (tag : Tag) (ename : Bytes)
  | flush (tag : Tag)
  | walk (tag : Tag) (qids : List Qid)
  | open (tag : Tag) (qid : Qid) (iounit : UInt32)
  | create (tag : Tag) (qid : Qid) (iounit : UInt32)
  | read (tag : Tag) (data : Bytes)
  | write (tag : Tag) (count : UInt32)
  | clunk (tag : Tag)
  | remove (tag : Tag)
  | stat (tag : Tag) (stat : Stat)
  | wstat (tag : Tag)
  | renameAt (tag : Tag)
  | referrals (tag : Tag) (referrals : List NamespaceReferral)
  deriving DecidableEq, Repr

namespace RMessage

/-- The tag of a response; `message.rs:236`. -/
def tag : RMessage → Tag
  | version tag .. | auth tag .. | attach tag .. | error tag .. | flush tag | walk tag ..
  | .open tag .. | create tag .. | read tag .. | write tag .. | clunk tag | remove tag
  | stat tag .. | wstat tag | renameAt tag | referrals tag .. => tag

/-- The type byte of a response; `message.rs:257`. -/
def messageType : RMessage → UInt8
  | version .. => RVERSION
  | auth .. => RAUTH
  | attach .. => RATTACH
  | error .. => RERROR
  | flush .. => RFLUSH
  | walk .. => RWALK
  | .open .. => ROPEN
  | create .. => RCREATE
  | read .. => RREAD
  | write .. => RWRITE
  | clunk .. => RCLUNK
  | remove .. => RREMOVE
  | stat .. => RSTAT
  | wstat .. => RWSTAT
  | renameAt .. => RRENAMEAT
  | referrals .. => RREFERRALS

end RMessage

end R9P.Wire
