import R9P.Wire.Data

/-!
# Session errors

Library `Session`. An error of `crates/session/src/error.rs` has an error number and a text.
The number is found in the text: remote errors, refusals of the client itself and failures
of the transport are all told apart by the words they use. Texts are kept as bytes. All the
words are ASCII, which `from_utf8_lossy` neither makes nor breaks.
-/

namespace R9P.Session
open Base Wire

/-! ### Error numbers of Linux, from `libc` -/

namespace Errno

def EPERM : Int := 1
def ENOENT : Int := 2
def EINTR : Int := 4
def EIO : Int := 5
def E2BIG : Int := 7
def EBADF : Int := 9
def EAGAIN : Int := 11
def ENOMEM : Int := 12
def EACCES : Int := 13
def EBUSY : Int := 16
def EEXIST : Int := 17
def ENODEV : Int := 19
def ENOTDIR : Int := 20
def EISDIR : Int := 21
def EINVAL : Int := 22
def EMFILE : Int := 24
def EFBIG : Int := 27
def EROFS : Int := 30
def EPIPE : Int := 32
def ENAMETOOLONG : Int := 36
def ENOTEMPTY : Int := 39
def EPROTO : Int := 71
def EBADMSG : Int := 74
def EOVERFLOW : Int := 75
def EMSGSIZE : Int := 90
def ENOTSUP : Int := 95
def ECONNABORTED : Int := 103
def ECONNRESET : Int := 104
def ENOTCONN : Int := 107
def ESHUTDOWN : Int := 108
def ETIMEDOUT : Int := 110
def ESTALE : Int := 116
def EREMOTEIO : Int := 121

end Errno

/-- `error.rs:56`. -/
structure Error where
  errno : Int
  message : Bytes
  deriving DecidableEq, Repr

/-- `error.rs:3`. -/
abbrev Result (α : Type) := Except Error α

/-! ### Words in texts -/

/-- `str::contains`. -/
def contains (text word : Bytes) : Bool := text.tails.any (word.isPrefixOf ·)

/-- `str::starts_with`. -/
def startsWith (text word : Bytes) : Bool := word.isPrefixOf text

/-- `str::to_ascii_lowercase`. -/
def toAsciiLowercase (text : Bytes) : Bytes :=
  text.map fun byte => if 0x41 ≤ byte ∧ byte ≤ 0x5a then byte + 0x20 else byte

/-- What follows the first occurrence of a word, as `str::find` leads to it. -/
def textAfter (word : Bytes) (text : Bytes) : Option Bytes :=
  (text.tails.find? (word.isPrefixOf ·)).map (·.drop word.length)

/-- `str::parse::<i32>` of a run of digits. -/
def parseI32 (digits : Bytes) : Option Int :=
  let value : Nat := digits.foldl (fun value byte => 10 * value + (byte.toNat - 0x30)) 0
  if digits.isEmpty || 2 ^ 31 ≤ value then none else some (value : Int)

/-! ### Classes of errors -/

/-- `error.rs:157`. -/
def PLAN9_ERRNO_PATTERNS : List (String × Int) :=
  [("unknown fid", Errno.ESTALE), ("stale fid", Errno.ESTALE), ("does not exist", Errno.ENOENT),
    ("no such device", Errno.ENODEV), ("not found", Errno.ENOENT), ("not_found", Errno.ENOENT),
    ("does_not_exist", Errno.ENOENT), ("not exist", Errno.ENOENT),
    ("no such file", Errno.ENOENT), ("no such entry", Errno.ENOENT), ("no such", Errno.ENOENT),
    ("operation not permitted", Errno.EPERM), ("not permitted", Errno.EPERM),
    ("forbidden", Errno.EACCES), ("unauthorized", Errno.EACCES),
    ("permission_denied", Errno.EACCES), ("permission", Errno.EACCES), ("access", Errno.EACCES),
    ("denied", Errno.EACCES), ("not writable", Errno.EACCES), ("not_writable", Errno.EACCES),
    ("write not allowed", Errno.EACCES), ("not readable", Errno.EACCES),
    ("not_readable", Errno.EACCES), ("bad walk", Errno.ENOENT), ("walk_partial", Errno.ENOENT),
    ("walk failed", Errno.ENOENT), ("walk", Errno.ENOENT), ("range", Errno.ENOENT),
    ("already exists", Errno.EEXIST), ("file exists", Errno.EEXIST), (" exists", Errno.EEXIST),
    ("duplicate", Errno.EEXIST), ("not a directory", Errno.ENOTDIR),
    ("not directory", Errno.ENOTDIR), ("not dir", Errno.ENOTDIR),
    ("is a directory", Errno.EISDIR), ("is directory", Errno.EISDIR),
    ("directory", Errno.ENOTDIR), ("not empty", Errno.ENOTEMPTY), ("preflight", Errno.EINVAL),
    ("rejected", Errno.EINVAL), ("decode", Errno.EINVAL), ("decode_failed", Errno.EINVAL),
    ("invalid", Errno.EINVAL), ("illegal", Errno.EINVAL), ("argument", Errno.EINVAL),
    ("malformed", Errno.EINVAL), ("parse", Errno.EINVAL), ("parse_failed", Errno.EINVAL),
    ("bad", Errno.EINVAL), ("not implemented", Errno.ENOTSUP),
    ("not_implemented", Errno.ENOTSUP), ("unimplemented", Errno.ENOTSUP),
    ("unsupported", Errno.ENOTSUP), ("not_supported", Errno.ENOTSUP),
    ("not supported", Errno.ENOTSUP), ("op unsupported", Errno.ENOTSUP),
    ("read-only", Errno.EROFS), ("read only", Errno.EROFS), ("timed out", Errno.ETIMEDOUT),
    ("timed_out", Errno.ETIMEDOUT), ("client_command_timeout", Errno.ETIMEDOUT),
    ("timeout", Errno.ETIMEDOUT), ("interrupt", Errno.EINTR), ("bad message", Errno.EBADMSG),
    ("bad file", Errno.EBADF), ("not open", Errno.EBADF), ("already open", Errno.EBUSY),
    ("input/output", Errno.EIO), ("i/o", Errno.EIO), ("protocol", Errno.EPROTO),
    ("proto", Errno.EPROTO), ("no connection", Errno.ENOTCONN),
    ("connection lost", Errno.ECONNABORTED), ("connection reset", Errno.ECONNRESET),
    ("pipe", Errno.EPIPE), ("temporar", Errno.EAGAIN), ("unavailable", Errno.EAGAIN),
    ("generation_conflict", Errno.EAGAIN), ("out of memory", Errno.ENOMEM),
    ("memory", Errno.ENOMEM), ("name too long", Errno.ENAMETOOLONG), ("too long", Errno.E2BIG),
    ("too large", Errno.EFBIG), ("overflow", Errno.EOVERFLOW), ("in use", Errno.EBUSY),
    ("busy", Errno.EBUSY)]

/-- `error.rs:126`. -/
def errnoFor9pError (message : Bytes) : Int :=
  let lower := toAsciiLowercase message
  match PLAN9_ERRNO_PATTERNS.find? fun (pattern, _) => contains lower (utf8 pattern) with
  | some (_, errno) => errno
  | none => Errno.EREMOTEIO

/-- `error.rs:121`. -/
def p9Error (ename : Bytes) : Error := ⟨errnoFor9pError ename, ename⟩

/-- `error.rs:253`. -/
def isProtocolError (message : Bytes) : Bool :=
  startsWith message (utf8 "9P client state:") ||
    startsWith message (utf8 "response tag mismatch") ||
    startsWith message (utf8 "unknown response") ||
    startsWith message (utf8 "duplicate waiter") ||
    startsWith message (utf8 "multiplexed calls require") ||
    startsWith message (utf8 "expected ") ||
    contains message (utf8 "reported more bytes written than requested")

/-- `error.rs:263`. -/
def isTransportMessage (message : Bytes) : Bool :=
  (startsWith message (utf8 "connect ") && contains message (utf8 "(os error ")) ||
    startsWith message (utf8 "read p9any ") ||
    startsWith message (utf8 "write p9any ") ||
    contains message (utf8 "9P frame") ||
    contains message (utf8 "9P reader stopped") ||
    contains message (utf8 "9P transport closed") ||
    contains message (utf8 "9P response timeout") ||
    contains message (utf8 "clone 9P stream") ||
    contains message (utf8 "lock 9P")

/-- `error.rs:275`. -/
def transportErrno (message : Bytes) : Option Int :=
  if contains message (utf8 "9P reader stopped") || contains message (utf8 "9P transport closed")
  then some Errno.ENOTCONN
  else if contains message (utf8 "9P response timeout") then some Errno.ETIMEDOUT
  else
    match textAfter (utf8 "os error ") message with
    | some rest => parseI32 (rest.takeWhile fun byte => 0x30 ≤ byte && byte ≤ 0x39)
    | none =>
      if startsWith message (utf8 "read p9any ") || startsWith message (utf8 "write p9any ") then
        some Errno.ECONNRESET
      else none

/-- The text of an error of the client's own state, `error.rs:139`. -/
def clientState (message : Bytes) : Bytes := utf8 "9P client state: " ++ message

/-- `error.rs:136`. -/
def clientError (error : Wire.Error) : Error :=
  let message := error.message
  if isProtocolError message then ⟨Errno.EPROTO, clientState message⟩
  else if contains message (utf8 "zero-length 9P write progress") then
    ⟨Errno.EIO, clientState message⟩
  else if contains message (utf8 "write count overflow") then
    ⟨Errno.EOVERFLOW, clientState message⟩
  else if isTransportMessage message then
    ⟨(transportErrno message).getD Errno.EIO, clientState message⟩
  else p9Error message

/-- The numbers that say by themselves that the transport is dead, `error.rs:85`. -/
def isTransportErrno (errno : Int) : Bool :=
  errno == Errno.EPIPE || errno == Errno.ECONNRESET || errno == Errno.ECONNABORTED ||
    errno == Errno.ENOTCONN || errno == Errno.ESHUTDOWN

/-- The words of an input or output error that say so, `error.rs:89`. -/
def isTransportText (message : Bytes) : Bool :=
  contains message (utf8 "9P frame") || contains message (utf8 "9P reader stopped") ||
    contains message (utf8 "9P transport closed") || contains message (utf8 "clone 9P stream")

/-- `error.rs:83`. -/
def Error.isDefinitiveTransportFailure (self : Error) : Bool :=
  isTransportErrno self.errno || (self.errno == Errno.EIO && isTransportText self.message)

/-! ### Where errors come from -/

/-- The causes of an error on a connection that works: an answer of the server, alone or at the
end of a walk that stopped, or the client's refusal to send. The quoted name is the text the
`Debug` formatter makes of it. -/
inductive Cause where
  | rerror (ename : Bytes)
  | partialWalk (quoted : Bytes) (position total : Nat) (reason : Option Bytes)
  | refused (why : Bytes)

/-- The error of the multiplexed client: `multiplex/client.rs:306` for a refusal,
`client_support.rs:36` for a walk. -/
def Cause.error : Cause → Wire.Error
  | .rerror ename => ⟨ename⟩
  | .partialWalk quoted position total (some reason) =>
    ⟨utf8 "partial walk: stopped at " ++ quoted ++ utf8 s!" ({position} of {total}): " ++ reason⟩
  | .partialWalk quoted position total none =>
    ⟨utf8 "partial walk: stopped at " ++ quoted ++
      utf8 s!" ({position} of {total}), and walking it alone did not say why"⟩
  | .refused why => ⟨utf8 "encode 9P frame: " ++ why⟩

/-- The patterns that stand for a lost connection. -/
def CONNECTION_PATTERNS : List String :=
  ["no connection", "connection lost", "connection reset", "pipe"]

/-- The numbers that stand for one. -/
def CONNECTION_ERRNOS : List Int :=
  [Errno.EPIPE, Errno.ECONNRESET, Errno.ECONNABORTED, Errno.ENOTCONN, Errno.ESHUTDOWN]

/-- The first of the patterns that is in a text. -/
def firstPattern (message : Bytes) : Option String :=
  (PLAN9_ERRNO_PATTERNS.find? fun (pattern, _) =>
    contains (toAsciiLowercase message) (utf8 pattern)).map Prod.fst

/-- A text in the words of the transport that is not of a dead one: it tells of a timeout, or of
the number of an operating system that is none of a lost connection, or it has only words that do
not stand for a dead transport. -/
def HarmlessFailure (message : Bytes) : Prop :=
  contains message (utf8 "9P reader stopped") = false ∧
    contains message (utf8 "9P transport closed") = false ∧
    (contains message (utf8 "9P response timeout") = true ∨
      match textAfter (utf8 "os error ") message with
      | some rest =>
        match parseI32 (rest.takeWhile fun byte => 0x30 ≤ byte && byte ≤ 0x39) with
        | some errno => errno ∉ CONNECTION_ERRNOS ∧
          (errno = Errno.EIO → isTransportText message = false)
        | none => isTransportText message = false
      | none => startsWith message (utf8 "read p9any ") = false ∧
        startsWith message (utf8 "write p9any ") = false ∧ isTransportText message = false)

/-- A text that is not taken for one of a dead transport. The words of a protocol error come first,
then those of writes, then those of the transport, then the patterns in their order. -/
def Harmless (message : Bytes) : Prop :=
  isProtocolError message = true ∨
    if contains message (utf8 "zero-length 9P write progress") then
      isTransportText message = false
    else contains message (utf8 "write count overflow") = true ∨
      if isTransportMessage message then HarmlessFailure message
      else ∀ pattern ∈ CONNECTION_PATTERNS, firstPattern message ≠ some pattern

/-! ### Harmless texts -/

theorem startsWith_append {text word more : Bytes} (h : startsWith (text ++ more) word = true) :
    startsWith text (word.take text.length) = true := by
  unfold startsWith at *
  rw [List.isPrefixOf_iff_prefix] at *
  apply List.prefix_of_prefix_length_le ((List.take_prefix _ word).trans h) (List.prefix_append _ _)
  rw [List.length_take]
  exact Nat.min_le_left _ _

/-- A word in a text behind a heading is in the text, when no end of the heading could begin
it. -/
theorem contains_append {heading text word : Bytes} (hh : ∀ rest ∈ heading.tails, rest = [] ∨
      startsWith rest (word.take rest.length) = false) :
    contains (heading ++ text) word = contains text word := by
  induction heading with
  | nil => rfl
  | cons byte heading ih =>
    have hhr := hh (byte :: heading) (by simp)
    have hrs := ih fun rest hr => hh rest (List.mem_cons_of_mem _ hr)
    have hn : word.isPrefixOf (byte :: heading ++ text) = false := by
      rcases hhr with hnl | hn
      · cases hnl
      · by_contra hb
        have := startsWith_append (Bool.not_eq_false _ ▸ hb)
        rw [hn] at this
        cases this
    rw [← hrs]
    show (word.isPrefixOf (byte :: heading ++ text) || contains (heading ++ text) word) = _
    rw [hn, Bool.false_or]

/-- The heading of an error of the client's own state has no part in such a word. -/
theorem isTransportText_clientState (message : Bytes) :
    isTransportText (clientState message) = isTransportText message := by
  unfold isTransportText clientState
  rw [contains_append (by decide +kernel), contains_append (by decide +kernel),
    contains_append (by decide +kernel), contains_append (by decide +kernel)]

variable {message : Bytes}

/-- Only the patterns of a lost connection lead to the number of one. -/
theorem errnoFor9pError_iff : isTransportErrno (errnoFor9pError message) = false ↔
    ∀ pattern ∈ CONNECTION_PATTERNS, firstPattern message ≠ some pattern := by
  have ht : ∀ entry ∈ PLAN9_ERRNO_PATTERNS,
      isTransportErrno entry.2 = false ↔ entry.1 ∉ CONNECTION_PATTERNS := by decide +kernel
  unfold errnoFor9pError firstPattern
  dsimp only
  cases hf : PLAN9_ERRNO_PATTERNS.find? fun (pattern, _) =>
      contains (toAsciiLowercase message) (utf8 pattern) with
  | none => exact ⟨fun _ _ _ => nofun, fun _ => rfl⟩
  | some entry =>
    refine (ht entry (List.mem_of_find?_eq_some hf)).trans ⟨fun hn pattern hm heq => ?_, ?_⟩
    · exact hn (Option.some.inj heq ▸ hm)
    · exact fun h hm => h entry.1 hm rfl

theorem isTransportErrno_iff {errno : Int} :
    isTransportErrno errno = false ↔ errno ∉ CONNECTION_ERRNOS := by
  simp [isTransportErrno, CONNECTION_ERRNOS, and_assoc]

/-- The number behind the words of the transport. -/
theorem transportErrno_iff : (isTransportErrno ((transportErrno message).getD Errno.EIO) ||
      ((transportErrno message).getD Errno.EIO == Errno.EIO && isTransportText message)) = false ↔
    HarmlessFailure message := by
  have hio : (isTransportErrno Errno.EIO || (Errno.EIO == Errno.EIO && isTransportText message)) =
      isTransportText message := rfl
  unfold transportErrno HarmlessFailure
  cases contains message (utf8 "9P reader stopped") with
  | true =>
    refine iff_of_false (fun h => ?_) fun h => ?_
    · cases h
    · cases h.1
  | false =>
    cases contains message (utf8 "9P transport closed") with
    | true =>
      refine iff_of_false (fun h => ?_) fun h => ?_
      · cases h
      · cases h.2.1
    | false =>
      cases contains message (utf8 "9P response timeout") with
      | true => exact ⟨fun _ => ⟨rfl, rfl, .inl rfl⟩, fun _ => rfl⟩
      | false =>
        simp only [Bool.or_self, Bool.false_eq_true, if_false, true_and, false_or]
        cases textAfter (utf8 "os error ") message with
        | some rest =>
          dsimp only
          cases parseI32 (rest.takeWhile fun byte => 0x30 ≤ byte && byte ≤ 0x39) with
          | some errno =>
            dsimp only [Option.getD_some]
            rw [Bool.or_eq_false_iff, isTransportErrno_iff, Bool.and_eq_false_iff,
              beq_eq_false_iff_ne, ← imp_iff_not_or]
          | none => exact Iff.of_eq (congrArg (· = false) hio)
        | none =>
          dsimp only
          cases startsWith message (utf8 "read p9any ") with
          | true =>
            refine iff_of_false (fun h => ?_) fun h => ?_
            · cases h
            · cases h.1
          | false =>
            cases startsWith message (utf8 "write p9any ") with
            | true =>
              refine iff_of_false (fun h => ?_) fun h => ?_
              · cases h
              · cases h.2.1
            | false => exact ⟨fun h => ⟨rfl, rfl, hio.symm.trans h⟩, fun h => hio.trans h.2.2⟩

theorem isTransportText_of_message (h : isTransportMessage message = false) :
    isTransportText message = false := by
  unfold isTransportMessage at h
  unfold isTransportText
  simp only [Bool.or_eq_false_iff] at h ⊢
  tauto

/-- The texts that are not taken for a dead transport. -/
theorem not_definitive_iff : (clientError ⟨message⟩).isDefinitiveTransportFailure = false ↔
    Harmless message := by
  have htx := isTransportText_clientState message
  unfold clientError Error.isDefinitiveTransportFailure Harmless
  dsimp only
  split
  · next hp => exact ⟨fun _ => .inl hp, fun _ => rfl⟩
  · next hp =>
    rw [or_iff_right hp]
    split
    · rw [htx]
      rfl
    · split
      · next hw => exact ⟨fun _ => .inl hw, fun _ => rfl⟩
      · next hw =>
        rw [or_iff_right hw]
        split
        · rw [htx]
          exact transportErrno_iff
        · next ht =>
          have hn := isTransportText_of_message (Bool.not_eq_true _ ▸ ht)
          unfold p9Error
          rw [hn, Bool.and_false, Bool.or_false]
          exact errnoFor9pError_iff

end R9P.Session
