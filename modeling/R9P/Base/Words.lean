import Mathlib.Tactic.Common
import Mathlib.Tactic.Ring

/-!
# Byte strings and little-endian words

Library `Base`. A byte string is the list of its bytes. Words of a fixed width are
written least significant byte first; writing and reading are mutually inverse at
every width, so a fixed-width field never loses or gains information on the wire.
-/

namespace R9P.Base

/-- Byte strings, in their list model. -/
abbrev Bytes := List UInt8

/-- The UTF-8 bytes of a literal text. -/
def utf8 (text : String) : Bytes := text.toUTF8.data.toList

/-- The `width` low bytes of a number, least significant byte first. -/
def leBytes : Nat → Nat → Bytes
  | 0, _ => []
  | width + 1, value => UInt8.ofNat value :: leBytes width (value / 256)

/-- The number a byte string denotes, least significant byte first. -/
def ofLeBytes : Bytes → Nat
  | [] => 0
  | b :: rest => b.toNat + 256 * ofLeBytes rest

/-- Writing uses exactly the requested width. -/
@[simp] theorem length_leBytes (width value : Nat) : (leBytes width value).length = width := by
  induction width generalizing value with
  | zero => rfl
  | succ width ih => simp [leBytes, ih]

/-- A byte string denotes a number below its own radix bound. -/
theorem ofLeBytes_lt (bs : Bytes) : ofLeBytes bs < 256 ^ bs.length := by
  induction bs with
  | nil => simp [ofLeBytes]
  | cons b rest ih =>
    have hb := b.toNat_lt
    rw [ofLeBytes, List.length_cons, Nat.pow_succ]
    omega

/-- Reading recovers every number that fits in the width. -/
theorem ofLeBytes_leBytes (width value : Nat) (h : value < 256 ^ width) :
    ofLeBytes (leBytes width value) = value := by
  induction width generalizing value with
  | zero =>
    have hz : value = 0 := by simpa using h
    simp [leBytes, ofLeBytes, hz]
  | succ width ih =>
    have hq : value / 256 < 256 ^ width := by
      apply Nat.div_lt_of_lt_mul
      rwa [Nat.pow_succ, Nat.mul_comm] at h
    have hb : (UInt8.ofNat value).toNat = value % 256 := by simp
    rw [leBytes, ofLeBytes, ih _ hq, hb]
    omega

/-- Writing recovers every byte string from the number it denotes. -/
theorem leBytes_ofLeBytes (bs : Bytes) : leBytes bs.length (ofLeBytes bs) = bs := by
  induction bs with
  | nil => rfl
  | cons b rest ih =>
    have hb := b.toNat_lt
    have hd : (b.toNat + 256 * ofLeBytes rest) / 256 = ofLeBytes rest := by omega
    have hh : UInt8.ofNat (b.toNat + 256 * ofLeBytes rest) = b := by
      apply UInt8.toNat_inj.mp
      rw [UInt8.toNat_ofNat']
      omega
    rw [List.length_cons, leBytes, ofLeBytes, hd, ih, hh]

end R9P.Base
