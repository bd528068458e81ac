/-!
Floating-point numbers of 64 bits, given by their bits.

A number is kept as the word that stores it, so that equality is equality of words, and its parts
are read off by arithmetic: a finite number is `± significand · 2 ^ exponent`.
-/

namespace EventScript

/-- A floating-point number of 64 bits: one bit for the sign, eleven for the exponent, and
fifty-two for the fraction. -/
structure Double where
  bits : UInt64
deriving DecidableEq, Repr

namespace Double

/-- Zero, with the sign bit off. -/
def zero : Double := ⟨0⟩

/-- Whether the sign bit is set, which it may be for a zero too. -/
def isNegative (d : Double) : Bool := decide (Nat.pow 2 63 ≤ d.bits.toNat)

/-- The eleven bits of the exponent. -/
def exponentField (d : Double) : Nat := d.bits.toNat / Nat.pow 2 52 % Nat.pow 2 11

/-- The fifty-two bits of the fraction. -/
def fraction (d : Double) : Nat := d.bits.toNat % Nat.pow 2 52

/-- Infinities and the values that are no numbers have all bits of the exponent set. -/
def isFinite (d : Double) : Bool := d.exponentField != Nat.pow 2 11 - 1

/-- The integer factor of a finite number: a number with a nonzero exponent field has a leading
bit that is not stored. -/
def significand (d : Double) : Nat :=
  if d.exponentField = 0 then d.fraction else Nat.pow 2 52 + d.fraction

/-- The power of two by which the significand of a finite number is scaled. -/
def exponent (d : Double) : Int :=
  if d.exponentField = 0 then -1074 else (d.exponentField : Int) - 1075

end Double

end EventScript
