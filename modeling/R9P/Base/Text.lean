import R9P.Base.Words
import Mathlib.Data.List.DropRight

/-!
# Text

Library `Base`. A text is the list of its characters. What is written line by line, or field by
field behind a separator, is read back by splitting, and so are numbers in decimal digits.
-/

namespace R9P.Base
open List (mem_cons mem_cons_of_mem mem_cons_self)

abbrev Text := List Char

instance : LawfulBEq Text := List.instLawfulBEq

/-- The characters of a literal text. -/
def text (literal : String) : Text := literal.toList

namespace Text

/-! ### Encoding -/

/-- The UTF-8 encoding. -/
def bytes (self : Text) : Bytes := self.flatMap String.utf8EncodeChar

/-- The number of bytes of the encoding. -/
def size (self : Text) : Nat := (self.map Char.utf8Size).sum

/-! ### Whitespace -/

/-- The characters with the property White_Space. -/
def isWhitespace (c : Char) : Bool :=
  let n := c.toNat
  (9 ≤ n && n ≤ 13) || n = 0x20 || n = 0x85 || n = 0xa0 || n = 0x1680 ||
    (0x2000 ≤ n && n ≤ 0x200a) || n = 0x2028 || n = 0x2029 || n = 0x202f || n = 0x205f || n = 0x3000

/-- Without the whitespace at both ends. -/
def trim (self : Text) : Text := (self.dropWhile isWhitespace).rdropWhile isWhitespace

variable {t : Text} {c : Char}

theorem mem_of_mem_trim (h : c ∈ trim t) : c ∈ t :=
  (List.dropWhile_sublist _).subset ((List.rdropWhile_prefix _ _).subset h)

/-- A text that begins and ends in something else than whitespace is left as it is. -/
theorem trim_eq_self (hh : ∀ c, t.head? = some c → isWhitespace c = false)
    (hl : ∀ c, t.getLast? = some c → isWhitespace c = false) : trim t = t := by
  have hlf : t.dropWhile isWhitespace = t := by
    cases t with
    | nil => rfl
    | cons c t =>
      apply List.dropWhile_cons_of_neg
      rw [hh c rfl]
      exact Bool.false_ne_true
  unfold trim
  rw [hlf, List.rdropWhile_eq_self_iff]
  intro hne
  rw [hl _ (List.getLast?_eq_some_getLast hne)]
  exact Bool.false_ne_true

theorem head?_trim (h : (trim t).head? = some c) : isWhitespace c = false := by
  obtain ⟨rest, hr⟩ := List.rdropWhile_prefix isWhitespace (t.dropWhile isWhitespace)
  have hh : (t.dropWhile isWhitespace).head? = some c := by
    rw [← hr, List.head?_append]
    exact Option.or_eq_some_iff.mpr (.inl h)
  have hn := List.head?_dropWhile_not isWhitespace t
  rw [hh] at hn
  exact hn

theorem getLast?_trim (h : (trim t).getLast? = some c) : isWhitespace c = false := by
  have hne : trim t ≠ [] := by
    rintro heq
    rw [heq] at h
    cases h
  have hl := List.rdropWhile_last_not isWhitespace (t.dropWhile isWhitespace) hne
  rw [List.getLast?_eq_some_getLast hne, Option.some.injEq] at h
  rw [← h]
  exact Bool.eq_false_of_not_eq_true hl

theorem trim_trim (t : Text) : trim (trim t) = trim t :=
  trim_eq_self (fun _ => head?_trim) (fun _ => getLast?_trim)

/-! ### Splitting -/

/-- What stands behind a given beginning. -/
def stripPrefix (start self : Text) : Option Text :=
  if start.isPrefixOf self then some (self.drop start.length) else none

/-- What stands before and behind the first separator. -/
def splitOnce (sep : Char) : Text → Option (Text × Text)
  | [] => none
  | c :: rest =>
    if c = sep then some ([], rest)
    else (splitOnce sep rest).map fun (before, behind) => (c :: before, behind)

/-- What stands before and behind the last separator. -/
def rsplitOnce (sep : Char) (self : Text) : Option (Text × Text) :=
  (splitOnce sep self.reverse).map fun (behind, before) => (before.reverse, behind.reverse)

variable {sep : Char} {before behind : Text}

theorem splitOnce_eq_some_iff :
    splitOnce sep t = some (before, behind) ↔ t = before ++ sep :: behind ∧ sep ∉ before := by
  induction t generalizing before with
  | nil => simp [splitOnce]
  | cons c rest ih =>
    unfold splitOnce
    by_cases hc : c = sep
    · rw [if_pos hc]
      cases before with
      | nil => simp [hc, eq_comm]
      | cons b before =>
        constructor
        · nofun
        · rintro ⟨heq, hn⟩
          cases heq
          exact absurd (hc ▸ mem_cons_self) hn
    · rw [if_neg hc]
      constructor
      · intro h
        obtain ⟨⟨first, second⟩, hr, heq⟩ := Option.map_eq_some_iff.mp h
        cases heq
        obtain ⟨rfl, hn⟩ := ih.mp hr
        refine ⟨rfl, ?_⟩
        rw [mem_cons, not_or]
        exact ⟨Ne.symm hc, hn⟩
      · rintro ⟨heq, hn⟩
        cases before with
        | nil =>
          cases heq
          exact absurd rfl hc
        | cons b before =>
          cases heq
          rw [ih.mpr ⟨rfl, fun hm => hn (mem_cons_of_mem _ hm)⟩]
          rfl

theorem rsplitOnce_eq_some_iff :
    rsplitOnce sep t = some (before, behind) ↔ t = before ++ sep :: behind ∧ sep ∉ behind := by
  unfold rsplitOnce
  rw [Option.map_eq_some_iff]
  constructor
  · rintro ⟨⟨first, second⟩, hs, heq⟩
    cases heq
    obtain ⟨hr, hn⟩ := splitOnce_eq_some_iff.mp hs
    refine ⟨?_, fun hm => hn (List.mem_reverse.mp hm)⟩
    rw [← List.reverse_reverse t, hr]
    simp
  · rintro ⟨rfl, hn⟩
    refine ⟨(behind.reverse, before.reverse), ?_, by simp⟩
    refine splitOnce_eq_some_iff.mpr ⟨by simp, fun hm => hn (List.mem_reverse.mp hm)⟩

/-- The pieces between separators. -/
theorem mem_splitOn {piece : Text} (h : piece ∈ t.splitOn sep) :
    sep ∉ piece ∧ ∀ c ∈ piece, c ∈ t := by
  induction t generalizing piece with
  | nil =>
    cases List.mem_singleton.mp h
    exact ⟨nofun, nofun⟩
  | cons b t ih =>
    rw [List.splitOn_cons_eq_if_modifyHead] at h
    split at h
    · rcases mem_cons.mp h with rfl | hr
      · exact ⟨nofun, nofun⟩
      · obtain ⟨hs, hm⟩ := ih hr
        exact ⟨hs, fun c hc => mem_cons_of_mem _ (hm c hc)⟩
    · next hne =>
      obtain ⟨first, rest, heq⟩ := List.exists_cons_of_ne_nil (List.splitOn_ne_nil sep t)
      rw [heq] at h ih
      rcases mem_cons.mp h with rfl | hr
      · obtain ⟨hs, hm⟩ := ih mem_cons_self
        refine ⟨?_, fun c hc => ?_⟩
        · rw [mem_cons, not_or]
          exact ⟨fun hb => hne (beq_iff_eq.mpr hb.symm), hs⟩
        · rcases mem_cons.mp hc with rfl | hf
          · exact mem_cons_self
          · exact mem_cons_of_mem _ (hm c hf)
      · obtain ⟨hs, hm⟩ := ih (mem_cons_of_mem _ hr)
        exact ⟨hs, fun c hc => mem_cons_of_mem _ (hm c hc)⟩

/-- Without the first half of a line end that is two characters long. -/
def stripReturn (line : Text) : Text :=
  if line.getLast? = some '\r' then line.dropLast else line

/-- The lines of a text that is split at its line ends: the last one counts if it is not empty. -/
def endLines : List Text → List Text
  | [] => []
  | [last] => if last.isEmpty then [] else [last]
  | line :: rest => stripReturn line :: endLines rest

def lines (self : Text) : List Text := endLines (self.splitOn '\n')

/-- Lines behind each other. -/
def unlines (parts : List Text) : Text := parts.flatMap (· ++ ['\n'])

theorem splitOn_unlines {parts : List Text} (h : ∀ part ∈ parts, '\n' ∉ part) :
    (unlines parts).splitOn '\n' = parts ++ [[]] := by
  induction parts with
  | nil => rfl
  | cons part parts ih =>
    have hu : unlines (part :: parts) = part ++ '\n' :: unlines parts := by simp [unlines]
    rw [hu, List.splitOn_append_cons_self_of_not_mem (h part mem_cons_self),
      ih fun other ho => h other (mem_cons_of_mem _ ho)]
    rfl

/-- Lines are read back if they contain nothing of a line end. -/
theorem lines_unlines {parts : List Text} (h : ∀ part ∈ parts, '\n' ∉ part ∧ '\r' ∉ part) :
    lines (unlines parts) = parts := by
  unfold lines
  rw [splitOn_unlines fun part hp => (h part hp).1]
  induction parts with
  | nil => rfl
  | cons part parts ih =>
    have hs : stripReturn part = part := by
      apply if_neg
      intro hl
      exact (h part mem_cons_self).2 (List.mem_of_getLast? hl)
    have hr := ih fun other ho => h other (mem_cons_of_mem _ ho)
    cases parts with
    | nil =>
      show [stripReturn part] = _
      rw [hs]
    | cons next parts =>
      show stripReturn part :: endLines (next :: parts ++ [[]]) = _
      rw [hs, hr]

/-! ### Decimal digits -/

def decimal (n : Nat) : Text := Nat.toDigits 10 n

/-- The number that digits write. -/
def digitsValue (digits : Text) : Nat := digits.foldl (fun n c => 10 * n + (c.toNat - 48)) 0

/-- A number below a bound, in digits that may stand behind a plus sign. -/
def readDecimal (bound : Nat) (self : Text) : Option Nat :=
  let digits := if self.head? = some '+' then self.tail else self
  if digits.isEmpty || !digits.all Char.isDigit then none
  else if digitsValue digits < bound then some (digitsValue digits) else none

theorem digitsValue_decimal (n : Nat) : digitsValue (decimal n) = n := by
  induction n using Nat.strongRecOn with
  | ind n ih =>
    have hd : ∀ d < 10, (Nat.digitChar d).toNat - 48 = d := by decide
    unfold decimal
    by_cases hn : n < 10
    · rw [Nat.toDigits_of_lt_base hn]
      show 10 * 0 + ((Nat.digitChar n).toNat - 48) = n
      rw [hd n hn]
      omega
    · rw [Nat.toDigits_of_base_le (by decide) (by omega)]
      have hr := ih (n / 10) (by omega)
      unfold digitsValue decimal at hr
      unfold digitsValue
      rw [List.foldl_append, hr]
      show 10 * (n / 10) + ((Nat.digitChar (n % 10)).toNat - 48) = n
      rw [hd (n % 10) (by omega)]
      omega

variable {n : Nat}

theorem isDigit_of_mem_decimal (h : c ∈ decimal n) : c.isDigit = true :=
  Nat.isDigit_of_mem_toDigits (by decide) (by decide) h

theorem readDecimal_decimal {bound : Nat} (h : n < bound) :
    readDecimal bound (decimal n) = some n := by
  have hne : (decimal n).isEmpty = false := List.isEmpty_eq_false_iff.mpr Nat.toDigits_ne_nil
  have hp : (decimal n).head? ≠ some '+' := by
    intro hh
    have hd := isDigit_of_mem_decimal (List.mem_of_mem_head? hh)
    exact absurd hd (by decide)
  have ha : (decimal n).all Char.isDigit = true :=
    List.all_eq_true.mpr fun c hc => isDigit_of_mem_decimal hc
  unfold readDecimal
  dsimp only
  rw [if_neg hp, hne, ha, digitsValue_decimal, if_pos h]
  rfl

end Text

end R9P.Base
