import EventScript.Double
import EventScript.Json.Reader

/-!
Numbers of JSON.

A number without a fraction and an exponent is an integer, if it fits into a word of 64 bits. All
others are floating-point numbers: as many digits as fit into a word make a significand, further
ones only count as places, and the significand is scaled by a power of ten.

* `Json.Numeral`: the value of a number;
* `Json.Reader.numeral`: the reader of one;
* `Json.Reader.skipNumeral`: the same, where nobody looks at the value.
-/

namespace EventScript.Json

/-- The value of a number. -/
inductive Numeral where
  | natural (n : Nat)
  | negative (n : Int)
  | double (d : Double)
deriving DecidableEq, Repr

namespace Numeral

/-- The value as an integer of 64 bits with sign. A number written with a fraction or an exponent
is none, and neither is a zero with a minus sign. -/
def toInt? : Numeral → Option Int
  | natural n => if n < Nat.pow 2 63 then some n else none
  | negative n => some n
  | double _ => none

/-- The value as a floating-point number; an integer is rounded to the nearest one. -/
def toDouble : Numeral → Double
  | natural n => ⟨(UInt64.ofNat n).toFloat.toBits⟩
  | negative n => ⟨(-(UInt64.ofNat n.natAbs).toFloat).toBits⟩
  | double d => d

end Numeral

/-- The greatest power of ten that one step of scaling takes. -/
def greatestPower : Nat := 308

/-- The floating-point number nearest to a power of ten. -/
def power (e : Nat) : Float := Float.ofScientific 1 false e

/-- A number divided by powers of ten of together `e` places, as many at a time as one step takes.
Each step is rounded. -/
def scaleDown : Nat → Float → Nat → Float
  | 0, f, e => f / power e
  | steps + 1, f, e =>
    if e ≤ greatestPower then f / power e
    else if f == 0 then f
    else scaleDown steps (f / power greatestPower) (e - greatestPower)

/-- The value of `significand · 10 ^ e`, with a sign, unless it is out of range. -/
def scaled (isNegative : Bool) (significand : Nat) (e : Int) : Option Double :=
  let f := (UInt64.ofNat significand).toFloat
  let magnitude : Option Float :=
    if e < 0 then some (scaleDown (e.natAbs / greatestPower) f e.natAbs)
    else if e ≤ greatestPower then
      let f := f * power e.natAbs
      if f.isInf then none else some f
    else if f == 0 then some f
    else none
  magnitude.map fun f => ⟨(if isNegative then -f else f).toBits⟩

/-- The significand with as many of the digits behind it as leave it below `2 ^ 64`, and the number
of digits that were left over. -/
def extend : Nat → List Char → Nat × Nat
  | significand, [] => (significand, 0)
  | significand, c :: rest =>
    let next := 10 * significand + (c.toNat - '0'.toNat)
    if next < Nat.pow 2 64 then extend next rest else (significand, rest.length + 1)

namespace Reader

/-- A value that may be missing because it is out of range. -/
def inRange (d : Option Double) : Reader Numeral :=
  match d with
  | some d => pure (.double d)
  | none => refuse .malformed

/-- The digits that must stand here. -/
def digits : Reader Text := do
  match ← peek with
  | none => refuse .endsEarly
  | some c =>
    if c.isDigit then takeWhile Char.isDigit
    else refuse .malformed

/-- The digits in front of a fraction: a zero stands alone. -/
def wholeDigits : Reader Text := do
  let ds ← digits
  if ds.head? = some '0' ∧ 1 < ds.length then refuse .malformed
  pure ds

/-- The exponent behind its letter. -/
def exponent : Reader Int := do
  let sign ← peek
  if sign = some '+' ∨ sign = some '-' then skip
  let n := Nat.ofDigitChars 10 (← digits) 0
  pure (if sign = some '-' then -(n : Int) else n)

/-- The exponent, if there is a letter for one. -/
def exponent? : Reader (Option Int) := do
  match ← peek with
  | some 'e' | some 'E' =>
    skip
    some <$> exponent
  | _ => pure none

/-- The digits of the fraction, if there is a point for one. -/
def fraction? : Reader (Option Text) := do
  match ← peek with
  | some '.' =>
    skip
    some <$> digits
  | _ => pure none

/-- A number without its sign. -/
def unsigned (isNegative : Bool) : Reader Numeral := do
  let (significand, places) := extend 0 (← wholeDigits)
  match ← fraction? with
  | some ds =>
    let (significand, unused) := extend significand ds
    let e := (places : Int) - ((ds.length - unused : Nat) : Int)
    inRange (scaled isNegative significand (e + (← exponent?).getD 0))
  | none =>
    match ← exponent? with
    | some e => inRange (scaled isNegative significand (places + e))
    | none =>
      if 0 < places then inRange (scaled isNegative significand places)
      else if !isNegative then pure (.natural significand)
      else if 0 < significand ∧ significand ≤ Nat.pow 2 63 then
        pure (.negative (-(significand : Int)))
      else inRange (scaled true significand 0)

/-- A number. -/
def numeral : Reader Numeral := do
  if (← peek) = some '-' then
    skip
    unsigned true
  else unsigned false

/-- Passes digits that must stand here; their absence is an error of form even at the end. -/
def skipDigits : Reader Unit := do
  let ds ← takeWhile Char.isDigit
  if ds.isEmpty then refuse .malformed

/-- Passes a number, whatever its range. -/
def skipNumeral : Reader Unit := do
  if (← peek) = some '-' then skip
  let ds ← takeWhile Char.isDigit
  if ds.isEmpty ∨ (ds.head? = some '0' ∧ 1 < ds.length) then refuse .malformed
  if (← peek) = some '.' then
    skip
    skipDigits
  let letter ← peek
  if letter = some 'e' ∨ letter = some 'E' then
    skip
    let sign ← peek
    if sign = some '+' ∨ sign = some '-' then skip
    skipDigits

end Reader

end EventScript.Json
