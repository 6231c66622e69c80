import R9P.Base.Address
import R9P.Base.Checked
import R9P.Base.TreeMap
import R9P.Wire.Data

/-!
# Export descriptors

Library `Descriptor`. The text form of a descriptor in `core/src/export_descriptor.rs`, with the
TCP endpoints of `core/src/endpoint.rs`: one field a line, a tab between its name and its value,
and the extension fields next to the reserved ones.
-/

namespace R9P.Descriptor
open Base Base.Text Wire

/-- An error with a text that is put together. -/
def fail {α : Type} (message : Text) : Result α := .error ⟨message.bytes⟩

/-- Fail on a condition. -/
def refuse (condition : Prop) [Decidable condition] (message : Text) : Result Unit :=
  if condition then fail message else .ok ()

theorem refuse_ok {condition : Prop} [Decidable condition] {message : Text} {u : Unit} :
    refuse condition message = .ok u ↔ ¬ condition := guard_ok

/-! ### Endpoints, `endpoint.rs` -/

def MAX_HOST_BYTES : Nat := 255

structure TcpEndpoint where
  host : Text
  port : UInt16
  deriving DecidableEq

namespace TcpEndpoint

/-- The characters that no endpoint may have; `endpoint.rs:18`. -/
def isForbidden (c : Char) : Bool :=
  c.toNat < 0x20 || c.toNat = 0x7f || c = ' '

/-- The host and the port, as they stand; `endpoint.rs:26`. -/
def split (value : Text) : Result (Text × Text) :=
  match value with
  | '[' :: value =>
    match splitOnce ']' value with
    | some (host, ':' :: port) => .ok (host, port)
    | _ => fail (text "invalid TCP endpoint " ++ value)
  | value =>
    match rsplitOnce ':' value with
    | none => fail (text "invalid TCP endpoint " ++ value)
    | some (host, port) =>
      if ':' ∈ host then fail (text "IPv6 TCP endpoint must be bracketed: " ++ value)
      else .ok (host, port)

/-- `endpoint.rs:15`. -/
def parse (value : Text) : Result TcpEndpoint := do
  refuse (value = [] ∨ MAX_HOST_BYTES + 8 < value.size ∨ value.any isForbidden)
    (text "invalid TCP endpoint " ++ value)
  let (host, port) ← split value
  refuse (host = [] ∨ MAX_HOST_BYTES < host.size ∨ '/' ∈ host ∨ '[' ∈ host ∨ ']' ∈ host)
    (text "invalid TCP endpoint host " ++ host)
  match (readDecimal (2 ^ 16) port).filter (0 < ·) with
  | some n => .ok ⟨host, .ofNat n⟩
  | none => fail (text "invalid TCP endpoint port " ++ port)

end TcpEndpoint

/-! ### Fields -/

/-- `export_descriptor.rs:51`. -/
inductive TransportClass where
  | tcp
  | unix
  deriving DecidableEq

/-- `export_descriptor.rs:57`. -/
inductive ExportMode where
  | readOnly
  | readWrite
  deriving DecidableEq

/-- `export_descriptor.rs:64`. -/
inductive Protocol where
  | _9P2000
  | _9P2000R
  | _9P2000L
  deriving DecidableEq

/-- `export_descriptor.rs:77`. -/
inductive AuthClass where
  | none
  | p9any
  | unixPeerCred
  deriving DecidableEq

/-- A value with one of a few spellings. -/
def spelled {α : Type} (what : String) (value : Text) (spellings : List (Text × α)) : Result α :=
  match spellings.lookup value with
  | some a => .ok a
  | none => fail (text what ++ value)

namespace TransportClass

def asStr : TransportClass → Text
  | tcp => text "tcp"
  | unix => text "unix"

/-- `export_descriptor.rs:333`. -/
def parse (value : Text) : Result TransportClass :=
  spelled "unknown transport_class " value [(text "tcp", tcp), (text "unix", unix)]

end TransportClass

namespace ExportMode

def asStr : ExportMode → Text
  | readOnly => text "ro"
  | readWrite => text "rw"

/-- `export_descriptor.rs:350`. -/
def parse (value : Text) : Result ExportMode :=
  spelled "unknown mode " value [(text "ro", readOnly), (text "rw", readWrite)]

end ExportMode

namespace Protocol

def asStr : Protocol → Text
  | _9P2000 => text "9P2000"
  | _9P2000R => text "9P2000.R"
  | _9P2000L => text "9P2000.L"

/-- `export_descriptor.rs:368`. -/
def parse (value : Text) : Result Protocol :=
  spelled "unknown protocol " value
    [(text "9P2000", _9P2000), (text "9P2000.R", _9P2000R), (text "9P2000.L", _9P2000L)]

end Protocol

namespace AuthClass

def asStr : AuthClass → Text
  | none => text "none"
  | p9any => text "p9any"
  | unixPeerCred => text "uds-peercred"

/-- `export_descriptor.rs:459`. -/
def parse (value : Text) : Result AuthClass :=
  spelled "unknown auth class " value
    [(text "none", none), (text "p9any", p9any), (text "uds-peercred", unixPeerCred)]

end AuthClass

/-- `export_descriptor.rs:482`. -/
def validateToken (field value : Text) : Result Unit :=
  refuse ('\t' ∈ value ∨ '\n' ∈ value ∨ '\r' ∈ value)
    (text "descriptor field " ++ field ++ text " contains tab or newline")

/-- `export_descriptor.rs:491`. -/
def validateExtensionFieldName (field : Text) : Result Unit :=
  match field with
  | [] => fail (text "descriptor extension field is empty")
  | first :: rest => do
    refuse (¬ first.isLower)
      (text "descriptor extension field " ++ field ++ text " must start with lowercase ascii")
    refuse (¬ rest.all fun c => c.isLower || c.isDigit || c = '_')
      (text "descriptor extension field " ++ field ++
        text " must use lowercase ascii, digits, or underscore")

def MAX_AUTH_DOMAIN_BYTES : Nat := 255

/-- `export_descriptor.rs:512`. -/
def validateP9anyDomain (domain : Text) : Result Unit := do
  refuse (domain = [] ∨ MAX_AUTH_DOMAIN_BYTES < domain.size)
    (text "auth domain must contain 1 to 255 bytes")
  refuse (¬ domain.all fun c => c.isAlphanum || c = '.' || c = '-' || c = '_')
    (text "auth domain must use ascii letters, digits, dot, dash, or underscore")

/-- The names of the fields that every descriptor may have; `export_descriptor.rs:529`. -/
def reservedFields : List Text :=
  [text "format", text "endpoint_bind", text "aname", text "uname", text "exported_root",
    text "transport_class", text "mode", text "auth", text "pid", text "protocol", text "msize",
    text "expires_at", text "local_root_label", text "namespace_mount_paths"]

def isReservedField (field : Text) : Bool := field ∈ reservedFields

/-! ### Authority -/

def P9ANY_NOISE_XX : Text := text "noise-xx"

/-- `export_descriptor.rs:71`. -/
structure AuthBoundary where
  authClass : AuthClass
  details : Text
  deriving DecidableEq

namespace AuthBoundary

/-- `export_descriptor.rs:379`. -/
def none : AuthBoundary := ⟨.none, []⟩

/-- `export_descriptor.rs:414`. -/
def p9anyDomain (self : AuthBoundary) : Option Text :=
  if self.authClass ≠ .p9any then Option.none
  else (stripPrefix P9ANY_NOISE_XX self.details).bind (stripPrefix (text "@"))

/-- `export_descriptor.rs:423`. -/
def render (self : AuthBoundary) : Text :=
  if self.authClass = .none ∧ self.details = [] then text "none"
  else self.authClass.asStr ++ ':' :: self.details

/-- `export_descriptor.rs:430`. -/
def validate (self : AuthBoundary) : Result Unit :=
  match self.authClass with
  | .none => refuse (self.details ≠ []) (text "invalid auth boundary " ++ self.render)
  | .p9any =>
    match self.p9anyDomain with
    | some domain => validateP9anyDomain domain
    | Option.none => fail (text "p9any auth boundary must use noise-xx@domain")
  | .unixPeerCred => refuse (self.details = []) (text "invalid auth boundary " ++ self.render)

/-- `export_descriptor.rs:386`. -/
def parse (value : Text) : Result AuthBoundary :=
  if value = text "none" then .ok none
  else
    match splitOnce ':' value with
    | Option.none => fail (text "invalid auth boundary " ++ value)
    | some (authClass, details) => do
      let authClass ← AuthClass.parse authClass
      let boundary : AuthBoundary := ⟨authClass, details⟩
      boundary.validate
      .ok boundary

end AuthBoundary

/-- `export_descriptor.rs:582`. -/
def tcpEndpointIsLoopback (endpoint : Text) : Bool :=
  (text "127.").isPrefixOf endpoint || (text "localhost:").isPrefixOf endpoint ||
    (text "[::1]:").isPrefixOf endpoint || (socketAddr endpoint).any IpAddr.isLoopback

/-- `export_descriptor.rs:592`. -/
def transportClassForEndpoint (endpoint : Text) : TransportClass :=
  if (text "unix:").isPrefixOf endpoint || (text "unix!").isPrefixOf endpoint then .unix else .tcp

/-- Only TCP endpoints have a form to check; `export_descriptor.rs:606`. -/
def checkEndpoint (transportClass : TransportClass) (endpointBind : Text) : Result Unit :=
  match transportClass with
  | .tcp => (TcpEndpoint.parse endpointBind).map fun _ => ()
  | .unix => .ok ()

/-- `export_descriptor.rs:600`. -/
def validateTransportAuth (transportClass : TransportClass) (endpointBind : Text)
    (auth : AuthBoundary) : Result Unit := do
  auth.validate
  checkEndpoint transportClass endpointBind
  match transportClass, auth.authClass with
  | .tcp, .none =>
    refuse (¬ tcpEndpointIsLoopback endpointBind)
      (text "descriptor auth=none is only admitted for loopback TCP")
  | .tcp, .unixPeerCred => fail (text "descriptor uds-peercred auth is not valid for TCP")
  | .unix, .p9any => fail (text "descriptor p9any session auth is not valid for unix sockets")
  | _, _ => .ok ()

/-! ### Descriptors -/

abbrev Fields := Std.ExtTreeMap Text Text

def EXPORT_FORMAT_V1 : Text := text "r9p-export.v1"
def SESSION_ENDPOINT_BIND_FIELD : Text := text "session_endpoint_bind"
def SESSION_ANAME_FIELD : Text := text "session_aname"
def SESSION_AUTH_FIELD : Text := text "session_auth"
def SERVICE_UNIT_FIELD : Text := text "service_unit"
def HOST_FIREWALL_ADMISSION_FIELD : Text := text "host_firewall_admission"

/-- `export_descriptor.rs:37`. -/
structure SessionEndpoint where
  endpointBind : Text
  aname : Text
  transportClass : TransportClass
  auth : AuthBoundary
  deriving DecidableEq

/-- `export_descriptor.rs:45`. -/
structure HostOwnership where
  serviceUnit : Text
  firewallAdmission : Text
  deriving DecidableEq

/-- `export_descriptor.rs:19`. -/
structure ExportDescriptor where
  endpointBind : Text
  aname : Text
  uname : Text
  exportedRoot : Text
  transportClass : TransportClass
  mode : ExportMode
  auth : AuthBoundary
  pid : UInt32
  protocol : Protocol
  msize : UInt32
  expiresAt : Option Text
  localRootLabel : Option Text
  namespaceMountPaths : List Text
  extraFields : Fields

/-- `export_descriptor.rs:272`. -/
def SessionEndpoint.validate (self : SessionEndpoint) : Result Unit := do
  validateToken SESSION_ENDPOINT_BIND_FIELD self.endpointBind
  validateToken SESSION_ANAME_FIELD self.aname
  refuse (self.endpointBind = []) (text "session endpoint bind is empty")
  refuse (self.aname = []) (text "session endpoint aname is empty")
  validateTransportAuth self.transportClass self.endpointBind self.auth

/-- One field of an ownership; `export_descriptor.rs:314`. -/
def HostOwnership.validateField (field value : Text) : Result Unit := do
  validateToken field value
  refuse (value = [] ∨ trim value ≠ value ∨ '"' ∈ value)
    (text "descriptor host ownership field " ++ field ++ text " is invalid")

/-- `export_descriptor.rs:306`. -/
def HostOwnership.validate (self : HostOwnership) : Result Unit := do
  validateField SERVICE_UNIT_FIELD self.serviceUnit
  validateField HOST_FIREWALL_ADMISSION_FIELD self.firewallAdmission

/-- `export_descriptor.rs:567`. -/
def validateNamespaceMountPath (path : Text) : Result Unit := do
  refuse (path = []) (text "empty namespace_mount_paths entry")
  refuse (path.head? ≠ some '/') (text "namespace_mount_paths entry is not absolute: " ++ path)
  refuse (path = text "/") (text "namespace_mount_paths entry cannot be root")

/-- `export_descriptor.rs:549`. -/
def parseNamespaceMountPaths (value : Option Text) : Result (List Text) :=
  match value with
  | none => .ok []
  | some value =>
    if trim value = [] then .ok []
    else ((trim value).splitOn ',').mapM fun path => do
      validateNamespaceMountPath (trim path)
      .ok (trim path)

/-- `export_descriptor.rs:469`. -/
def required (fields : Fields) (field : Text) : Result Text :=
  match fields[field]? with
  | some value => .ok value
  | none => fail (text "missing descriptor field " ++ field)

/-- `export_descriptor.rs:476`. -/
def parseU32 (value field : Text) : Result UInt32 :=
  match readDecimal (2 ^ 32) value with
  | some n => .ok (.ofNat n)
  | none => fail (text "invalid " ++ field ++ ' ' :: value)

namespace ExportDescriptor

/-- Add fields that must be new. -/
def insertNew (what : String) (extra : Fields) : List (Text × Text) → Result Fields
  | [] => .ok extra
  | (field, value) :: rest =>
    if field ∈ extra then fail (text what ++ field)
    else insertNew what (extra.insert field value) rest

/-- `export_descriptor.rs:84`. -/
def withSessionEndpoint (self : ExportDescriptor) (endpoint : SessionEndpoint) :
    Result ExportDescriptor := do
  endpoint.validate
  let extra ← insertNew "descriptor already contains session endpoint field " self.extraFields
    [(SESSION_ENDPOINT_BIND_FIELD, endpoint.endpointBind), (SESSION_ANAME_FIELD, endpoint.aname),
      (SESSION_AUTH_FIELD, endpoint.auth.render)]
  .ok { self with extraFields := extra }

/-- `export_descriptor.rs:100`. -/
def sessionEndpoint (self : ExportDescriptor) : Result (Option SessionEndpoint) :=
  match self.extraFields[SESSION_ENDPOINT_BIND_FIELD]?, self.extraFields[SESSION_ANAME_FIELD]?,
    self.extraFields[SESSION_AUTH_FIELD]? with
  | none, none, none => .ok none
  | some bind, some aname, some auth => do
    let auth ← AuthBoundary.parse auth
    let endpoint : SessionEndpoint := ⟨bind, aname, transportClassForEndpoint bind, auth⟩
    endpoint.validate
    .ok (some endpoint)
  | _, _, _ => fail (text "descriptor has an incomplete session endpoint")

/-- `export_descriptor.rs:135`. -/
def hostOwnership (self : ExportDescriptor) : Result (Option HostOwnership) :=
  match self.extraFields[SERVICE_UNIT_FIELD]?, self.extraFields[HOST_FIREWALL_ADMISSION_FIELD]? with
  | none, none => .ok none
  | some serviceUnit, some firewallAdmission => do
    let ownership : HostOwnership := ⟨serviceUnit, firewallAdmission⟩
    ownership.validate
    .ok (some ownership)
  | _, _ => fail (text "descriptor has incomplete host ownership evidence")

/-- `export_descriptor.rs:266`. -/
def validateAuthorityBoundary (self : ExportDescriptor) : Result Unit :=
  validateTransportAuth self.transportClass self.endpointBind self.auth

/-- The lines of the reserved fields; `export_descriptor.rs:158`. -/
def reservedLines (self : ExportDescriptor) : List (Text × Text) :=
  [(text "format", EXPORT_FORMAT_V1), (text "endpoint_bind", self.endpointBind),
    (text "aname", self.aname), (text "uname", self.uname),
    (text "exported_root", self.exportedRoot),
    (text "transport_class", self.transportClass.asStr), (text "mode", self.mode.asStr),
    (text "auth", self.auth.render), (text "pid", decimal self.pid.toNat),
    (text "protocol", self.protocol.asStr), (text "msize", decimal self.msize.toNat)] ++
  (self.expiresAt.map fun value => (text "expires_at", value)).toList ++
  (self.localRootLabel.map fun value => (text "local_root_label", value)).toList ++
  if self.namespaceMountPaths.isEmpty then []
  else [(text "namespace_mount_paths", [','].intercalate self.namespaceMountPaths)]

/-- An extension field as it may be rendered; `export_descriptor.rs:183`. -/
def checkExtension (field : Text) : Result Unit := do
  validateExtensionFieldName field
  refuse (isReservedField field)
    (text "descriptor extension field " ++ field ++ text " is reserved")

/-- The loop at `export_descriptor.rs:194`. -/
def renderLines : List (Text × Text) → Result Text
  | [] => .ok []
  | (field, value) :: rest => do
    validateToken field field
    validateToken field value
    let out ← renderLines rest
    .ok (field ++ '\t' :: value ++ '\n' :: out)

/-- `export_descriptor.rs:154`. -/
def render (self : ExportDescriptor) : Result Text := do
  self.validateAuthorityBoundary
  let _ ← self.sessionEndpoint
  let _ ← self.hostOwnership
  self.extraFields.toList.forM fun (field, _) => checkExtension field
  renderLines (self.reservedLines ++ self.extraFields.toList)

/-- The body of the loop at `export_descriptor.rs:208`, with the number of the line. -/
def parseLine (index : Nat) (line : Text) (read : Fields × Fields) : Result (Fields × Fields) :=
  if line = [] then .ok read
  else
    match line.splitOn '\t' with
    | [field, value] => do
      validateToken field field
      validateToken field value
      if isReservedField field then
        if field ∈ read.1 then fail (text "duplicate descriptor field " ++ field)
        else .ok (read.1.insert field value, read.2)
      else
        validateExtensionFieldName field
        if field ∈ read.2 then fail (text "duplicate descriptor field " ++ field)
        else .ok (read.1, read.2.insert field value)
    | _ =>
      fail (text "descriptor line " ++ decimal (index + 1) ++ text " is not field-tab-value")

def parseLines : Nat → List Text → Fields × Fields → Result (Fields × Fields)
  | _, [], read => .ok read
  | index, line :: rest, read => do
    let read ← parseLine index line read
    parseLines (index + 1) rest read

/-- The descriptor of some fields, before it is validated; `export_descriptor.rs:235`. -/
def ofFields (fields extra : Fields) : Result ExportDescriptor := do
  let format ← required fields (text "format")
  refuse (format ≠ EXPORT_FORMAT_V1) (text "unknown descriptor format " ++ format)
  let endpointBind ← required fields (text "endpoint_bind")
  let aname ← required fields (text "aname")
  let uname ← required fields (text "uname")
  let exportedRoot ← required fields (text "exported_root")
  let transportClass ← required fields (text "transport_class") >>= TransportClass.parse
  let mode ← required fields (text "mode") >>= ExportMode.parse
  let auth ← required fields (text "auth") >>= AuthBoundary.parse
  let pid ← required fields (text "pid") >>= (parseU32 · (text "pid"))
  let protocol ← required fields (text "protocol") >>= Protocol.parse
  let msize ← required fields (text "msize") >>= (parseU32 · (text "msize"))
  let namespaceMountPaths ← parseNamespaceMountPaths fields[text "namespace_mount_paths"]?
  .ok ⟨endpointBind, aname, uname, exportedRoot, transportClass, mode, auth, pid, protocol, msize,
    fields[text "expires_at"]?, fields[text "local_root_label"]?, namespaceMountPaths, extra⟩

/-- `export_descriptor.rs:205`. -/
def parse (input : Text) : Result ExportDescriptor := do
  let (fields, extra) ← parseLines 0 (lines input) (∅, ∅)
  let descriptor ← ofFields fields extra
  descriptor.validateAuthorityBoundary
  let _ ← descriptor.sessionEndpoint
  let _ ← descriptor.hostOwnership
  .ok descriptor

end ExportDescriptor

end R9P.Descriptor
