import R9P.Base.Separated
import R9P.Descriptor.Export

/-!
# Endpoints without authentication

Library `Descriptor`. A descriptor without authentication names a TCP endpoint that passes for
one of the loopback interface. The test looks at the beginning of the text, the endpoint that is
dialled comes from `TcpEndpoint::parse`. The two agree unless the text begins with `127.` and what
stands before the colon is no IPv4 address.
-/

namespace R9P.Descriptor
open Base Base.Text Base.Scanner Wire

variable {value host port : Text} {endpoint : TcpEndpoint} {d : ExportDescriptor}

/-! ### The parts of an endpoint -/

/-- An endpoint in brackets, or one whose only colon stands before the port. -/
def TcpEndpoint.Splits (value host port : Text) : Prop :=
  (value = '[' :: (host ++ ']' :: ':' :: port) ∧ ']' ∉ host) ∨
    (value = host ++ ':' :: port ∧ ':' ∉ host ∧ value.head? ≠ some '[')

theorem TcpEndpoint.splits_of_split (h : split value = .ok (host, port)) :
    Splits value host port := by
  unfold split at h
  split at h
  · next value =>
    split at h
    · next hs =>
      cases h
      obtain ⟨rfl, hn⟩ := splitOnce_eq_some_iff.mp hs
      exact .inl ⟨rfl, hn⟩
    · cases h
  · next hb =>
    split at h
    · cases h
    · next first second hs =>
      split at h
      · cases h
      · next hc =>
        cases h
        obtain ⟨heq, -⟩ := rsplitOnce_eq_some_iff.mp hs
        refine .inr ⟨heq, hc, fun hh => ?_⟩
        cases value with
        | nil => cases hh
        | cons c value =>
          cases hh
          exact hb value rfl

theorem TcpEndpoint.splits_of_parse (h : parse value = .ok endpoint) :
    ∃ port, Splits value endpoint.host port := by
  obtain ⟨-, h⟩ := check_ok.mp h
  obtain ⟨⟨host, port⟩, hs, h⟩ := bind_ok.mp h
  obtain ⟨-, h⟩ := check_ok.mp h
  split at h
  · cases h
    exact ⟨port, splits_of_split hs⟩
  · cases h

/-! ### The loopback interface -/

/-- The name of the loopback interface, or an address of it. -/
def IsLoopbackHost (host : Text) : Prop :=
  host = text "localhost" ∨ (ipLiteral host).any IpAddr.isLoopback = true

instance (host : Text) : Decidable (IsLoopbackHost host) :=
  inferInstanceAs (Decidable (_ ∨ _))

/-- In what begins like a loopback address of IPv4, such an address stands before the colon. -/
def Dotted (endpoint : Text) : Prop :=
  (text "127.").isPrefixOf endpoint = true →
    (whole ipv4 (endpoint.takeWhile (· ≠ ':'))).isSome = true

theorem ipLiteral_of_ipv4 {octets : List Nat} (h : ipv4 host = some (octets, [])) :
    ipLiteral host = some (.v4 octets) := by
  unfold ipLiteral
  rw [whole_eq_some_iff.mpr h]
  rfl

/-- An address that begins with `127.` is one of the loopback interface. -/
theorem head?_ipv4 {octets : List Nat} {behind rest : Text}
    (h : ipv4 (text "127." ++ behind) = some (octets, rest)) : octets.head? = some 127 := by
  obtain ⟨a, between, hn, h⟩ := andThen_eq_some_iff.mp h
  have hs : number 10 (some 3) false 256 (text "127" ++ '.' :: behind) =
      some (127, '.' :: behind) := stops_number (by decide) (text "127") behind
  cases hn.symm.trans hs
  obtain ⟨b, _, -, h⟩ := andThen_eq_some_iff.mp h
  obtain ⟨c, _, -, h⟩ := andThen_eq_some_iff.mp h
  obtain ⟨d, -, rfl⟩ := map_eq_some_iff.mp h
  rfl

theorem isLoopbackHost_of_socketAddr {ip : IpAddr} (hs : TcpEndpoint.Splits value host port)
    (h : socketAddr value = some ip) (hl : ip.isLoopback = true) : IsLoopbackHost host := by
  right
  rcases hs with ⟨rfl, -⟩ | ⟨rfl, -, hb⟩
  · rw [ipLiteral_of_bracketed h]
    exact hl
  · have hhs : host.head? ≠ some '[' := by
      intro hh
      apply hb
      rw [List.head?_append, hh]
      rfl
    obtain ⟨octets, rfl, hi⟩ := ipv4_of_socketAddr hhs h
    rw [ipLiteral_of_ipv4 hi]
    exact hl

/-- What begins with `127.` is no IPv6 address. -/
private theorem ipv6_dotted (behind : Text) : ipv6 (text "127." ++ behind) = none := by
  cases hi : ipv4 (text "127." ++ behind) with
  | some read => exact ipv6_of_ipv4 hi
  | none =>
    have hn : number 16 (some 4) true 65536 (text "127" ++ '.' :: behind) =
        some (295, '.' :: behind) := stops_number (by decide) (text "127") behind
    have hg : groups 8 true (text "127." ++ behind) = (([295], false), '.' :: behind) := by
      unfold groups
      rw [if_neg (by decide), separator, if_pos rfl, hi, separator, if_pos rfl]
      dsimp only
      rw [show text "127." ++ behind = text "127" ++ '.' :: behind from rfl, hn]
      rfl
    unfold ipv6
    rw [hg]
    rfl

/-- The host of an endpoint that begins with `127.` stands before its colon. -/
private theorem host_of_dotted {behind : Text}
    (hs : TcpEndpoint.Splits (text "127." ++ behind) host port) :
    text "127." ++ behind = host ++ ':' :: port ∧
      (text "127." ++ behind).takeWhile (· ≠ ':') = host := by
  rcases hs with ⟨hv, -⟩ | ⟨hv, hc, -⟩
  · cases hv
  · refine ⟨hv, ?_⟩
    have ha : ∀ c ∈ host, decide (c ≠ ':') = true := by
      intro c hm
      apply decide_eq_true
      rintro rfl
      exact hc hm
    rw [hv, List.takeWhile_append_of_pos ha]
    exact List.append_nil host

/-- An endpoint that passes for one of the loopback interface is one if it is dotted. -/
private theorem isLoopbackHost_of_parse (hd : Dotted value)
    (hp : TcpEndpoint.parse value = .ok endpoint) (hl : tcpEndpointIsLoopback value = true) :
    IsLoopbackHost endpoint.host := by
  obtain ⟨port, hs⟩ := TcpEndpoint.splits_of_parse hp
  unfold tcpEndpointIsLoopback at hl
  simp only [Bool.or_eq_true] at hl
  rcases hl with ((h127 | hlc) | hsx) | ha
  · obtain ⟨octets, ho⟩ := Option.isSome_iff_exists.mp (hd h127)
    obtain ⟨behind, rfl⟩ := List.isPrefixOf_iff_prefix.mp h127
    obtain ⟨hv, hh⟩ := host_of_dotted hs
    rw [hh] at ho
    have hi := whole_eq_some_iff.mp ho
    have hw := stops_ipv4 (c := ':') (by decide) (by decide) endpoint.host port
    rw [hi, ← hv] at hw
    rw [IsLoopbackHost, ipLiteral_of_ipv4 hi]
    exact .inr (decide_eq_true (head?_ipv4 hw))
  · obtain ⟨behind, hv⟩ := List.isPrefixOf_iff_prefix.mp hlc
    left
    rcases hs with ⟨rfl, -⟩ | ⟨rfl, hc, -⟩
    · cases hv
    · exact (append_inj_of_closed (by decide) hc (.inr rfl) (.inr rfl)
        (show text "localhost" ++ ':' :: behind = _ from hv)).1.symm
  · obtain ⟨behind, hv⟩ := List.isPrefixOf_iff_prefix.mp hsx
    rcases hs with ⟨rfl, hcl⟩ | ⟨-, -, hb⟩
    · have hin := (List.cons.inj
        (show '[' :: (text "::1" ++ ']' :: ':' :: behind) = _ from hv)).2
      rw [← (append_inj_of_closed (by decide) hcl (.inr rfl) (.inr rfl) hin).1]
      decide
    · rw [← hv] at hb
      exact absurd rfl hb
  · cases hip : socketAddr value with
    | none =>
      rw [hip] at ha
      cases ha
    | some ip =>
      rw [hip] at ha
      exact isLoopbackHost_of_socketAddr hs hip ha

/-- An endpoint of the loopback interface is dotted. -/
private theorem dotted_of_isLoopbackHost (hp : TcpEndpoint.parse value = .ok endpoint)
    (hl : IsLoopbackHost endpoint.host) : Dotted value := by
  intro h127
  obtain ⟨port, hs⟩ := TcpEndpoint.splits_of_parse hp
  obtain ⟨behind, rfl⟩ := List.isPrefixOf_iff_prefix.mp h127
  obtain ⟨hv, hh⟩ := host_of_dotted hs
  rw [hh]
  rcases hl with hn | hi
  · rw [hn] at hv
    cases hv
  · cases hw : whole ipv4 endpoint.host with
    | some octets => rfl
    | none =>
      have hb : ∃ between, endpoint.host = text "127." ++ between := by
        rw [← hh, List.takeWhile_append_of_pos (List.all_eq_true.mp (by decide))]
        exact ⟨_, rfl⟩
      obtain ⟨between, hb⟩ := hb
      have h6 : whole (ipv6.andThen fun segments => (optional scopeId).map fun _ => segments)
          endpoint.host = none := by
        rw [hb, whole, andThen, ipv6_dotted]
        rfl
      rw [ipLiteral, hw, h6] at hi
      cases hi

/-! ### Descriptors -/

/-- TCP without authentication passes the validation for the loopback interface, or if the
endpoint is not dotted. -/
private theorem isLoopbackHost_iff_of_validate {auth : AuthBoundary}
    (h : validateTransportAuth .tcp value auth = .ok ()) (ha : auth.authClass = .none) :
    (∃ endpoint, TcpEndpoint.parse value = .ok endpoint ∧ IsLoopbackHost endpoint.host) ↔
      Dotted value := by
  obtain ⟨-, h⟩ := check_ok.mp h
  obtain ⟨hc, h⟩ := check_ok.mp h
  rw [ha] at h
  have hl := Decidable.not_not.mp (refuse_ok.mp h)
  cases hp : TcpEndpoint.parse value with
  | error e =>
    rw [checkEndpoint, hp] at hc
    cases hc
  | ok endpoint =>
    constructor
    · rintro ⟨_, he, hh⟩
      cases he
      exact dotted_of_isLoopbackHost hp hh
    · intro hd
      exact ⟨endpoint, rfl, isLoopbackHost_of_parse hd hp hl⟩

theorem ExportDescriptor.validated_of_render {out : Text}
    (h : d.render = .ok out) : d.validateAuthorityBoundary = .ok () :=
  (check_ok.mp h).1

theorem ExportDescriptor.validated_of_parse {input : Text}
    (h : parse input = .ok d) : d.validateAuthorityBoundary = .ok () := by
  obtain ⟨read, -, h⟩ := bind_ok.mp h
  obtain ⟨d, -, h⟩ := bind_ok.mp h
  obtain ⟨hv, h⟩ := check_ok.mp h
  obtain ⟨_, -, h⟩ := bind_ok.mp h
  obtain ⟨_, -, h⟩ := bind_ok.mp h
  cases h
  exact hv

theorem ExportDescriptor.validated_of_sessionEndpoint {s : SessionEndpoint}
    (h : d.sessionEndpoint = .ok (some s)) : s.validate = .ok () := by
  unfold sessionEndpoint at h
  split at h
  · cases h
  · obtain ⟨auth, -, h⟩ := bind_ok.mp h
    obtain ⟨hv, h⟩ := check_ok.mp h
    cases h
    exact hv
  · cases h

theorem SessionEndpoint.transport_of_validate {s : SessionEndpoint} (h : s.validate = .ok ()) :
    validateTransportAuth s.transportClass s.endpointBind s.auth = .ok () := by
  obtain ⟨-, h⟩ := check_ok.mp h
  obtain ⟨-, h⟩ := check_ok.mp h
  obtain ⟨-, h⟩ := check_ok.mp h
  exact (check_ok.mp h).2

/-- The TCP endpoints that some descriptor or session endpoint names without authentication, and
passes validation. -/
inductive Admitted : Text → Prop
  | parsed {input : Text} {d : ExportDescriptor} (h : ExportDescriptor.parse input = .ok d)
      (tcp : d.transportClass = .tcp) (auth : d.auth.authClass = .none) : Admitted d.endpointBind
  | rendered {out : Text} {d : ExportDescriptor} (h : d.render = .ok out)
      (tcp : d.transportClass = .tcp) (auth : d.auth.authClass = .none) : Admitted d.endpointBind
  | session {d : ExportDescriptor} {s : SessionEndpoint} (h : d.sessionEndpoint = .ok (some s))
      (tcp : s.transportClass = .tcp) (auth : s.auth.authClass = .none) : Admitted s.endpointBind
  | added {d d' : ExportDescriptor} {s : SessionEndpoint} (h : d.withSessionEndpoint s = .ok d')
      (tcp : s.transportClass = .tcp) (auth : s.auth.authClass = .none) : Admitted s.endpointBind

/-- A descriptor of a read-only export without authentication. -/
def plainDescriptor (endpoint : Text) : ExportDescriptor where
  endpointBind := endpoint
  aname := text "/"
  uname := text "codex"
  exportedRoot := text "/"
  transportClass := .tcp
  mode := .readOnly
  auth := .none
  pid := 42
  protocol := ._9P2000
  msize := 65536
  expiresAt := none
  localRootLabel := none
  namespaceMountPaths := []
  extraFields := ∅

theorem admitted_plainDescriptor (h : (plainDescriptor value).render.toOption.isSome = true) :
    Admitted value := by
  obtain ⟨out, ho⟩ := Option.isSome_iff_exists.mp h
  have hr := ok_of_toOption ho
  exact .rendered hr rfl rfl

/-- The endpoint of TCP that is admitted without authentication is one of the loopback interface
exactly if it is dotted. -/
theorem admitted_is_loopback (h : Admitted value) :
    (∃ endpoint, TcpEndpoint.parse value = .ok endpoint ∧ IsLoopbackHost endpoint.host) ↔
      Dotted value := by
  cases h with
  | parsed h tcp auth =>
    have hv := ExportDescriptor.validated_of_parse h
    rw [ExportDescriptor.validateAuthorityBoundary, tcp] at hv
    exact isLoopbackHost_iff_of_validate hv auth
  | rendered h tcp auth =>
    have hv := ExportDescriptor.validated_of_render h
    rw [ExportDescriptor.validateAuthorityBoundary, tcp] at hv
    exact isLoopbackHost_iff_of_validate hv auth
  | session h tcp auth =>
    have hv := SessionEndpoint.transport_of_validate
      (ExportDescriptor.validated_of_sessionEndpoint h)
    rw [tcp] at hv
    exact isLoopbackHost_iff_of_validate hv auth
  | added h tcp auth =>
    have hv := SessionEndpoint.transport_of_validate (check_ok.mp h).1
    rw [tcp] at hv
    exact isLoopbackHost_iff_of_validate hv auth

theorem admitted_is_loopback_address :
    ∃ endpoint, TcpEndpoint.parse (text "127.0.0.1:1234") = .ok endpoint ∧
      IsLoopbackHost endpoint.host :=
  (admitted_is_loopback (admitted_plainDescriptor (by decide +kernel))).mpr
    fun _ => by decide +kernel

/-- The name of any host passes that begins like a loopback address. -/
theorem name_admitted_as_loopback : Admitted (text "127.evil.example:80") ∧
    TcpEndpoint.parse (text "127.evil.example:80") = .ok ⟨text "127.evil.example", 80⟩ ∧
    ¬ IsLoopbackHost (text "127.evil.example") :=
  ⟨admitted_plainDescriptor (by decide +kernel), by decide +kernel, by decide +kernel⟩

end R9P.Descriptor
