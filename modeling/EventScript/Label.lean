import EventScript.Text

/-!
Label names.

The labels `L0` to `L20` are commands of their own and are known by their number; every other label
exists only in the text.

* `Label.name`, `Label.number?`: the name of a numbered label, and the number of a name;
* `Label.candidate`, `Label.candidates`: the names that are tried for a new label;
* `Label.fresh`: a name that is not in use and is no name of a numbered label.
-/

namespace EventScript

namespace Label

/-- The greatest number of a numbered label. -/
def highest : Nat := 20

/-- The name of a numbered label. -/
def name (number : Nat) : Text := 'L' :: Text.ofNat number

/-- The number written by decimal digits alone. -/
def digits? (t : Text) : Option Nat :=
  if t ≠ [] ∧ t.all Char.isDigit then some (Nat.ofDigitChars 10 t 0) else none

/-- The number written by decimal digits, with or without a plus sign in front. -/
def unsigned? : Text → Option Nat
  | '+' :: t => digits? t
  | t => digits? t

/-- The number of a label name. What follows the `L` may not begin with a zero unless it is one,
and the number may not be greater than `Label.highest`. -/
def number? : Text → Option Nat
  | 'L' :: t =>
    if 1 < t.length ∧ t.head? = some '0' then none
    else (unsigned? t).filter fun n => n ≤ highest
  | _ => none

/-- Whether a name may be given to a new label: it is not in use, and it is no name of a numbered
label. -/
def isFree (used : List Text) (name : Text) : Bool :=
  !used.contains name && (number? name).isNone

/-- The base followed by a number. -/
def candidate (base : Text) (n : Nat) : Text := base ++ Text.ofNat n

/-- The names to try for a new label: the base, and the base followed by the numbers from one on.
At most `used.length` of them are in use, and at most twenty-one name a numbered label. -/
def candidates (used : List Text) (base : Text) : List Text :=
  base :: (List.range (used.length + highest + 2)).map fun n => candidate base (n + 1)

/-- The first free name among the candidates. -/
def fresh (used : List Text) (base : Text) : Text :=
  ((candidates used base).find? (isFree used)).getD base

end Label

end EventScript
