import R9P.Base.Text

/-!
# Internet addresses in text

Library `Base`. The addresses and socket addresses that the standard library of Rust reads
(`core::net::parser`). A scanner takes what it can from the front of a text. `Stops` says that a
scanner goes no further than some character, so that what stands before it can be read alone.
-/

namespace R9P.Base

/-- A scanner gives what it has read and the rest of the text, or nothing. -/
abbrev Scanner (α : Type) := Text → Option (α × Text)

namespace Scanner

variable {α β : Type}

/-- Read one and then another. -/
def andThen (first : Scanner α) (second : α → Scanner β) : Scanner β := fun input =>
  (first input).bind fun (a, rest) => second a rest

/-- Apply a function to what is read. -/
def map (f : α → β) (scan : Scanner α) : Scanner β := fun input =>
  (scan input).map fun (a, rest) => (f a, rest)

/-- `read_given_char`. -/
def givenChar (c : Char) : Scanner Unit
  | [] => none
  | d :: rest => if d = c then some ((), rest) else none

/-- The value of a digit. -/
def digit (radix : Nat) (c : Char) : Option Nat :=
  let value :=
    if c.isDigit then some (c.toNat - 48)
    else if 'a' ≤ c ∧ c ≤ 'z' then some (c.toNat - 87)
    else if 'A' ≤ c ∧ c ≤ 'Z' then some (c.toNat - 55)
    else none
  value.filter (· < radix)

/-- `read_number`: all digits that follow, no more than `maxDigits`, of a value below the bound. -/
def number (radix : Nat) (maxDigits : Option Nat) (allowZeroPrefix : Bool) (bound : Nat) :
    Scanner Nat := fun input =>
  let digits := input.takeWhile fun c => (digit radix c).isSome
  let value := digits.foldl (fun n c => radix * n + (digit radix c).getD 0) 0
  if digits.isEmpty || maxDigits.any (· < digits.length) ||
      !allowZeroPrefix && digits.head? = some '0' && 1 < digits.length || bound ≤ value then none
  else some (value, input.drop digits.length)

/-- `read_separator`: all but the first stand behind a separator. -/
def separator (sep : Char) (first : Bool) (scan : Scanner α) : Scanner α :=
  if first then scan else (givenChar sep).andThen fun _ => scan

/-- `read_ipv4_addr`. -/
def ipv4 : Scanner (List Nat) :=
  (number 10 (some 3) false 256).andThen fun a =>
  (separator '.' false (number 10 (some 3) false 256)).andThen fun b =>
  (separator '.' false (number 10 (some 3) false 256)).andThen fun c =>
  (separator '.' false (number 10 (some 3) false 256)).map fun d => [a, b, c, d]

/-- The two groups of an embedded IPv4 address. -/
def embedded : List Nat → List Nat
  | [a, b, c, d] => [256 * a + b, 256 * c + d]
  | _ => []

/-- `read_groups`: up to `room` groups, with an IPv4 address in the place of the last two; the
flag says that there is one. -/
def groups : Nat → Bool → Text → (List Nat × Bool) × Text
  | 0, _, input => (([], false), input)
  | room + 1, first, input =>
    match (if room = 0 then none else separator ':' first ipv4 input) with
    | some (octets, rest) => ((embedded octets, true), rest)
    | none =>
      match separator ':' first (number 16 (some 4) true 65536) input with
      | some (group, rest) =>
        let following := groups room false rest
        ((group :: following.1.1, following.1.2), following.2)
      | none => (([], false), input)

/-- `read_ipv6_addr`. -/
def ipv6 : Scanner (List Nat) := fun input =>
  let head := groups 8 true input
  if head.1.1.length = 8 then some (head.1.1, head.2)
  else if head.1.2 then none
  else
    ((givenChar ':').andThen fun _ => (givenChar ':').andThen fun _ rest =>
      let tail := groups (8 - (head.1.1.length + 1)) true rest
      some (head.1.1 ++ List.replicate (8 - head.1.1.length - tail.1.1.length) 0 ++ tail.1.1,
        tail.2)) head.2

/-- `read_port`. -/
def port : Scanner Nat := (givenChar ':').andThen fun _ => number 10 none true 65536

/-- `read_scope_id`. -/
def scopeId : Scanner Nat := (givenChar '%').andThen fun _ => number 10 none true (2 ^ 32)

/-- Read what is there, or nothing. -/
def optional (scan : Scanner α) : Scanner (Option α) := fun input =>
  match scan input with
  | some (a, rest) => some (some a, rest)
  | none => some (none, input)

/-- The whole text is read. -/
def whole (scan : Scanner α) (input : Text) : Option α :=
  match scan input with
  | some (a, []) => some a
  | _ => none

end Scanner

/-- An address. -/
inductive IpAddr where
  | v4 (octets : List Nat)
  | v6 (segments : List Nat)
  deriving DecidableEq

/-- `is_loopback`. -/
def IpAddr.isLoopback : IpAddr → Bool
  | v4 octets => octets.head? = some 127
  | v6 segments => segments = [0, 0, 0, 0, 0, 0, 0, 1]

namespace Scanner

/-- `read_socket_addr_v4`. -/
def socketAddrV4 : Scanner IpAddr := ipv4.andThen fun octets => port.map fun _ => .v4 octets

/-- `read_socket_addr_v6`. -/
def socketAddrV6 : Scanner IpAddr :=
  (givenChar '[').andThen fun _ => ipv6.andThen fun segments => (optional scopeId).andThen fun _ =>
    (givenChar ']').andThen fun _ => port.map fun _ => .v6 segments

end Scanner

open Scanner

/-- The address of a socket address; `SocketAddr::from_str`. -/
def socketAddr (self : Text) : Option IpAddr :=
  (whole fun input => (socketAddrV4 input).or (socketAddrV6 input)) self

/-- An address by itself, or one of IPv6 with a scope behind it as socket addresses have them. -/
def ipLiteral (self : Text) : Option IpAddr :=
  ((whole ipv4 self).map .v4).or
    ((whole (ipv6.andThen fun segments => (optional scopeId).map fun _ => segments) self).map .v6)

/-! ### What stands before a character -/

namespace Scanner

variable {α β : Type} {c : Char} {second : α → Scanner β}

/-- The scanner does not go beyond the first such character. -/
def Stops (c : Char) (scan : Scanner α) : Prop :=
  ∀ before behind, scan (before ++ c :: behind) =
    (scan before).map fun (a, rest) => (a, rest ++ c :: behind)

theorem Stops.andThen {first : Scanner α} (h : Stops c first)
    (h' : ∀ a, Stops c (second a)) : Stops c (first.andThen second) := by
  intro before behind
  unfold Scanner.andThen
  rw [h]
  cases hf : first before with
  | none => rfl
  | some read =>
    obtain ⟨a, rest⟩ := read
    exact h' a rest behind

variable {scan : Scanner α} {maxDigits : Option Nat} {allowZeroPrefix : Bool}

theorem Stops.map (h : Stops c scan) (f : α → β) : Stops c (scan.map f) := by
  intro before behind
  unfold Scanner.map
  rw [h]
  cases scan before with
  | none | some read => rfl

theorem Stops.optional (h : Stops c scan) : Stops c (optional scan) := by
  intro before behind
  unfold Scanner.optional
  rw [h]
  cases scan before with
  | none | some read => rfl

theorem stops_givenChar {d : Char} (hne : c ≠ d) : Stops c (givenChar d) := by
  intro before behind
  cases before with
  | nil => exact if_neg hne
  | cons b before =>
    show (if b = d then some ((), before ++ c :: behind) else none) =
      (if b = d then some ((), before) else none).map _
    split
    · rfl
    · rfl

theorem stops_number {radix bound : Nat}
    (hd : digit radix c = none) : Stops c (number radix maxDigits allowZeroPrefix bound) := by
  intro before behind
  have ht : (before ++ c :: behind).takeWhile (fun c => (digit radix c).isSome) =
      before.takeWhile fun c => (digit radix c).isSome := by
    induction before with
    | nil => simp [hd]
    | cons b before ih =>
      rw [List.cons_append, List.takeWhile_cons, List.takeWhile_cons, ih]
  have hl := (List.takeWhile_prefix (l := before) fun c => (digit radix c).isSome).length_le
  unfold number
  dsimp only
  rw [ht, List.drop_append_of_le_length hl]
  split
  · rfl
  · rfl

theorem Stops.separator {sep : Char} (h : Stops c scan) (hne : c ≠ sep)
    (first : Bool) : Stops c (separator sep first scan) := by
  cases first with
  | true => exact h
  | false => exact (stops_givenChar hne).andThen fun _ => h

theorem stops_ipv4 (hd : digit 10 c = none) (hdt : c ≠ '.') : Stops c ipv4 := by
  have hn : Stops c (number 10 (some 3) false 256) := stops_number hd
  exact hn.andThen fun _ => (hn.separator hdt false).andThen fun _ =>
    (hn.separator hdt false).andThen fun _ => (hn.separator hdt false).map _

/-- A character that no part of an IPv6 address has. -/
structure Foreign (c : Char) : Prop where
  decimal : digit 10 c = none
  hexadecimal : digit 16 c = none
  dot : c ≠ '.'
  colon : c ≠ ':'

theorem groups_stops (hc : Foreign c) (room : Nat) (first : Bool) (before behind : Text) :
    groups room first (before ++ c :: behind) =
      ((groups room first before).1, (groups room first before).2 ++ c :: behind) := by
  induction room generalizing first before with
  | zero => rfl
  | succ room ih =>
    have hi : Stops c (separator ':' first ipv4) :=
      (stops_ipv4 hc.decimal hc.dot).separator hc.colon first
    have hg : Stops c (separator ':' first (number 16 (some 4) true 65536)) :=
      (stops_number hc.hexadecimal).separator hc.colon first
    have he : (if room = 0 then none else separator ':' first ipv4 (before ++ c :: behind)) =
        (if room = 0 then none else separator ':' first ipv4 before).map
          fun (octets, rest) => (octets, rest ++ c :: behind) := by
      split
      · rfl
      · exact hi before behind
    unfold groups
    rw [he]
    cases (if room = 0 then none else separator ':' first ipv4 before) with
    | some read => rfl
    | none =>
      dsimp only [Option.map_none]
      rw [hg]
      cases separator ':' first (number 16 (some 4) true 65536) before with
      | none => rfl
      | some read =>
        dsimp only [Option.map_some]
        rw [ih]

theorem stops_ipv6 (hc : Foreign c) : Stops c ipv6 := by
  intro before behind
  unfold ipv6
  rw [groups_stops hc]
  dsimp only
  split
  · rfl
  · split
    · rfl
    · -- Behind the head both go on in the same way.
      refine ((stops_givenChar hc.colon).andThen fun _ =>
        (stops_givenChar hc.colon).andThen fun _ => ?_) _ behind
      intro between behind
      dsimp only
      rw [groups_stops hc]
      rfl

/-! ### The host of a socket address -/

variable {input : Text}

/-- A number that is read to the end of the text has no other character in it. -/
theorem not_mem_of_number {radix bound n : Nat}
    (h : number radix maxDigits allowZeroPrefix bound input = some (n, []))
    (hd : digit radix c = none) : c ∉ input := by
  intro hm
  obtain ⟨before, behind, rfl⟩ := List.append_of_mem hm
  rw [stops_number hd] at h
  obtain ⟨⟨a, rest⟩, -, heq⟩ := Option.map_eq_some_iff.mp h
  cases rest <;> cases heq

theorem whole_eq_some_iff {a : α} : whole scan input = some a ↔ scan input = some (a, []) := by
  unfold whole
  split
  · next heq =>
    rw [heq]
    simp
  · next hne =>
    refine ⟨nofun, fun heq => absurd heq (hne a)⟩

variable {rest : Text}

theorem andThen_eq_some_iff {first : Scanner α}
    {b : β} : first.andThen second input = some (b, rest) ↔
      ∃ a between, first input = some (a, between) ∧ second a between = some (b, rest) := by
  unfold andThen
  rw [Option.bind_eq_some_iff]
  constructor
  · rintro ⟨⟨a, between⟩, hf, hs⟩
    exact ⟨a, between, hf, hs⟩
  · rintro ⟨a, between, hf, hs⟩
    exact ⟨(a, between), hf, hs⟩

theorem map_eq_some_iff {f : α → β} {b : β} :
    scan.map f input = some (b, rest) ↔ ∃ a, scan input = some (a, rest) ∧ f a = b := by
  unfold map
  rw [Option.map_eq_some_iff]
  constructor
  · rintro ⟨⟨a, behind⟩, hs, heq⟩
    cases heq
    exact ⟨a, hs, rfl⟩
  · rintro ⟨a, hs, rfl⟩
    exact ⟨(a, rest), hs, rfl⟩

theorem givenChar_eq_some_iff {d : Char} {u : Unit} :
    givenChar d input = some (u, rest) ↔ input = d :: rest := by
  cases input with
  | nil => exact ⟨nofun, nofun⟩
  | cons b input =>
    show (if b = d then some ((), input) else none) = some (u, rest) ↔ _
    split
    · next heq => simp [heq]
    · next hne => simp [hne]

/-- A port that ends the text. -/
theorem port_eq_some {n : Nat} (h : port input = some (n, [])) :
    ∃ digits, input = ':' :: digits ∧ ∀ c, digit 10 c = none → c ∉ digits := by
  obtain ⟨_, digits, hcl, hn⟩ := andThen_eq_some_iff.mp h
  exact ⟨digits, givenChar_eq_some_iff.mp hcl, fun c hc => not_mem_of_number hn hc⟩

/-- What begins like an IPv4 address is none of IPv6. -/
theorem ipv6_of_ipv4 {octets : List Nat}
    (h : ipv4 input = some (octets, rest)) : ipv6 input = none := by
  have hg : groups 8 true input = ((embedded octets, true), rest) := by
    have he : (if 7 = 0 then none else separator ':' true ipv4 input) = some (octets, rest) := h
    unfold groups
    rw [he]
  have hl : (embedded octets).length ≠ 8 := by
    unfold embedded
    split
    · simp
    · simp
  unfold ipv6
  rw [hg]
  exact (if_neg hl).trans (if_pos rfl)

end Scanner

/-- The host of an IPv4 socket address is an IPv4 address. -/
theorem ipv4_of_socketAddr {host behind : Text} {ip : IpAddr} (hh : host.head? ≠ some '[')
    (h : socketAddr (host ++ ':' :: behind) = some ip) :
    ∃ octets, ip = .v4 octets ∧ ipv4 host = some (octets, []) := by
  rcases Option.or_eq_some_iff.mp (whole_eq_some_iff.mp h) with hv4 | ⟨-, hv6⟩
  · obtain ⟨octets, between, hi, hp⟩ := andThen_eq_some_iff.mp hv4
    obtain ⟨n, hn, rfl⟩ := map_eq_some_iff.mp hp
    obtain ⟨digits, rfl, hd⟩ := port_eq_some hn
    rw [stops_ipv4 (by decide) (by decide)] at hi
    obtain ⟨⟨_, rest⟩, ha, heq⟩ := Option.map_eq_some_iff.mp hi
    cases rest with
    | nil =>
      cases heq
      exact ⟨octets, rfl, ha⟩
    | cons c rest =>
      -- A second colon would stand among the digits of the port.
      cases heq
      exact absurd (List.mem_append_right rest List.mem_cons_self) (hd ':' (by decide))
  · obtain ⟨_, rest, hb, -⟩ := andThen_eq_some_iff.mp hv6
    have hf := givenChar_eq_some_iff.mp hb
    cases host with
    | nil => cases hf
    | cons c host =>
      cases hf
      exact absurd rfl hh

/-- What stands in the brackets of an IPv6 socket address is an IPv6 address. -/
theorem ipLiteral_of_bracketed {host behind : Text} {ip : IpAddr}
    (h : socketAddr ('[' :: (host ++ ']' :: behind)) = some ip) : ipLiteral host = some ip := by
  rcases Option.or_eq_some_iff.mp (whole_eq_some_iff.mp h) with hv4 | ⟨-, hv6⟩
  · obtain ⟨octets, between, hi, -⟩ := andThen_eq_some_iff.mp hv4
    have hnn : ipv4 ([] ++ '[' :: (host ++ ']' :: behind)) = none :=
      stops_ipv4 (by decide) (by decide) [] _
    cases hnn.symm.trans hi
  · obtain ⟨_, _, hb, hv6⟩ := andThen_eq_some_iff.mp hv6
    cases givenChar_eq_some_iff.mp hb
    obtain ⟨segments, between, hip, hv6⟩ := andThen_eq_some_iff.mp hv6
    have hf : Foreign ']' := ⟨by decide, by decide, by decide, by decide⟩
    rw [stops_ipv6 hf] at hip
    obtain ⟨⟨_, rest⟩, ha, heq⟩ := Option.map_eq_some_iff.mp hip
    cases heq
    obtain ⟨scope, between, hsc, hv6⟩ := andThen_eq_some_iff.mp hv6
    have hst : Stops ']' (optional scopeId) :=
      ((stops_givenChar (by decide)).andThen fun _ => stops_number (by decide)).optional
    rw [hst] at hsc
    obtain ⟨⟨_, last⟩, hs, heq⟩ := Option.map_eq_some_iff.mp hsc
    cases heq
    obtain ⟨_, tail, hc, hp⟩ := andThen_eq_some_iff.mp hv6
    obtain ⟨n, hn, rfl⟩ := map_eq_some_iff.mp hp
    obtain ⟨digits, rfl, hd⟩ := port_eq_some hn
    have hl : last = [] := by
      have hc := givenChar_eq_some_iff.mp hc
      cases last with
      | nil => rfl
      | cons c last =>
        cases last with
        | nil => cases hc
        | cons d last =>
          -- A second bracket would stand among the digits of the port.
          cases hc
          exact absurd (List.mem_append_right last List.mem_cons_self) (hd ']' (by decide))
    rw [hl] at hs
    have hv4 : whole ipv4 host = none := by
      cases hw : whole ipv4 host with
      | none => rfl
      | some octets => cases (ipv6_of_ipv4 (whole_eq_some_iff.mp hw)).symm.trans ha
    unfold ipLiteral
    rw [hv4, whole_eq_some_iff.mpr (andThen_eq_some_iff.mpr
      ⟨segments, rest, ha, map_eq_some_iff.mpr ⟨scope, hs, rfl⟩⟩)]
    rfl

end R9P.Base
