import Mathlib

/-!
# The AVR target

Addresses have 16 bits.  `int` has 16 bits and wraps around in two's complement;
a conversion to `unsigned char` keeps the low eight bits.
-/

namespace EmbeddedKernel

/-- An address of a function or of an object; 0 is `NULL`. -/
abbrev Addr := UInt16

namespace Avr

def wrap16 (x : ℤ) : ℤ := (x + 32768) % 65536 - 32768

theorem wrap16_of_mem {x : ℤ} (hlo : -32768 ≤ x) (hhi : x ≤ 32767) : wrap16 x = x := by
  unfold wrap16
  omega

/-- Conversion of an `int` to `unsigned int`. -/
def toUnsigned (x : ℤ) : ℕ := (x % 65536).toNat

/-- Conversion of an `int` to `unsigned char`. -/
def toUChar (x : ℤ) : UInt8 := UInt8.ofNat (x % 256).toNat

/-- The value of a `char`, which is signed. -/
def ofChar (b : UInt8) : ℤ := if b.toNat < 128 then b.toNat else b.toNat - 256

theorem toUnsigned_wrap16 {n : ℕ} (hn : n < 65536) : toUnsigned (wrap16 n) = n := by
  unfold toUnsigned wrap16
  omega

theorem wrap16_wrap16_add (x y : ℤ) : wrap16 (wrap16 x + y) = wrap16 (x + y) := by
  unfold wrap16
  omega

theorem toNat_toUChar (x : ℤ) : ((toUChar x).toNat : ℤ) = x % 256 := by
  have hpos : 0 ≤ x % 256 := Int.emod_nonneg x (by decide)
  have hlt : x % 256 < 256 := Int.emod_lt_of_pos x (by decide)
  have hmod : (x % 256).toNat % 2 ^ 8 = (x % 256).toNat := Nat.mod_eq_of_lt (by omega)
  rw [toUChar, UInt8.toNat_ofNat', hmod]
  omega

end Avr

end EmbeddedKernel
