import EventScript.Double
import EventScript.Text

/-!
The shortest decimal of a floating-point number.

The reals that round to a number form an interval around it. Among the points of the decimal grids
`10 ^ e · ℕ` inside that interval, a decimal of fewest digits lies on the coarsest grid that has
one, and on that grid one of the two neighbours of the number is inside if any point is.

* `RoundingInterval.onGrid`: the neighbour of the number on one grid that lies inside, the nearer
  of two, and the larger of two equally near;
* `RoundingInterval.shortest`: that neighbour on the coarsest grid that has one;
* `Double.text`: the decimal in positional notation, never with an exponent.
-/

namespace EventScript

/-- The reals that round to a number: the interval from `low · 2 ^ unit` to `high · 2 ^ unit`
around `value · 2 ^ unit`, with its ends if `closed`. -/
structure RoundingInterval where
  low : Nat
  value : Nat
  high : Nat
  unit : Int
  closed : Bool

namespace RoundingInterval

/-- The interval of a number that is finite and not zero. Its half-width is half a unit of the last
place, and half as much below the least number of a binade, where the numbers lie twice as dense. A
tie rounds to the even significand, so the ends belong to the interval of an even one. -/
def ofDouble (d : Double) : RoundingInterval where
  low := if d.fraction = 0 ∧ 1 < d.exponentField then 4 * d.significand - 1
    else 4 * d.significand - 2
  value := 4 * d.significand
  high := 4 * d.significand + 2
  unit := d.exponent - 2
  closed := d.significand % 2 = 0

/-- The factors that make `c · 10 ^ e` and `n · 2 ^ unit` comparable as natural numbers: the first
is the one of `c`, the second the one of `n`. -/
def scales (r : RoundingInterval) (e : Int) : Nat × Nat :=
  (Nat.pow 10 e.toNat * Nat.pow 2 (-r.unit).toNat, Nat.pow 2 r.unit.toNat * Nat.pow 10 (-e).toNat)

/-- Whether `c · 10 ^ e` lies in the interval. -/
def holds (r : RoundingInterval) (e : Int) (c : Nat) : Bool :=
  let (ten, two) := r.scales e
  if r.closed then decide (r.low * two ≤ c * ten ∧ c * ten ≤ r.high * two)
  else decide (r.low * two < c * ten ∧ c * ten < r.high * two)

/-- The point of the grid `10 ^ e · ℕ` in the interval that lies nearest to the number, by its
multiple of `10 ^ e`. Of two equally near the larger is taken. -/
def onGrid (r : RoundingInterval) (e : Int) : Option Nat :=
  let (ten, two) := r.scales e
  let below := r.value * two / ten
  match r.holds e below, r.holds e (below + 1) with
  | true, true => some (if 2 * (r.value * two) < (2 * below + 1) * ten then below else below + 1)
  | true, false => some below
  | false, true => some (below + 1)
  | false, false => none

/-- The powers of ten to try, coarsest first: every number is below `10 ^ 310`, and every interval
has a point with at most 17 digits. -/
def grids : List Int := (List.range 660).map fun (i : Nat) => 310 - (i : Int)

/-- The decimal `c · 10 ^ e` of fewest digits in the interval, as the pair of `c` and `e`. -/
def shortest (r : RoundingInterval) : Nat × Int :=
  (grids.findSome? fun e => (r.onGrid e).map fun c => (c, e)).getD (0, 0)

end RoundingInterval

namespace Double

/-- The decimal `c · 10 ^ e` in positional notation: zeros fill the places up to the point, and
there is no point behind an integer. -/
def positional (c : Nat) (e : Int) : Text :=
  let digits := Text.ofNat c
  if 0 ≤ e then digits ++ List.replicate e.toNat '0'
  else
    let places := (-e).toNat
    if places < digits.length then
      digits.take (digits.length - places) ++ '.' :: digits.drop (digits.length - places)
    else '0' :: '.' :: (List.replicate (places - digits.length) '0' ++ digits)

/-- The printed text of a number. A zero keeps its sign; what is no number has none. -/
def text (d : Double) : Text :=
  if d.isFinite then
    let magnitude :=
      if d.significand = 0 then ['0']
      else
        let (c, e) := (RoundingInterval.ofDouble d).shortest
        positional c e
    if d.isNegative then '-' :: magnitude else magnitude
  else if d.fraction = 0 then
    if d.isNegative then "-inf".toList else "inf".toList
  else "NaN".toList

end Double

end EventScript
