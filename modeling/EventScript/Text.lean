/-!
Text as a sequence of code points.

Everything the library prints is a list of characters, so that its length is its width on a line
and every statement about printed text is a statement about lists.

* `Text.ofNat`, `Text.ofInt`, `Text.ofIntPadded`: decimal numerals;
* `Text.indent`: the blanks of an indent;
* `Text.blockOpen`, `Text.blockClose`, `Text.blockElse`: the marks around blocks of statements;
* `Text.unwrap`: a text without the one pair of parentheses around it.
-/

namespace EventScript

/-- A text is the list of its code points, and its width is the length of that list. -/
abbrev Text := List Char

namespace Text

/-! ### Numerals -/

/-- The decimal numeral of a natural number, without leading zeros. -/
def ofNat (n : Nat) : Text := Nat.toDigits 10 n

/-- The decimal numeral of an integer, with a minus sign in front of a negative one. -/
def ofInt (n : Int) : Text :=
  if n < 0 then '-' :: ofNat n.natAbs else ofNat n.natAbs

/-- The decimal numeral of an integer, filled up with a zero to two characters. A sign counts as
one of the two, so only the ten digits are filled up. -/
def ofIntPadded (n : Int) : Text :=
  if 0 ≤ n ∧ n < 10 then '0' :: ofInt n else ofInt n

/-! ### Pieces -/

/-- An indent of `width` blanks. -/
def indent (width : Nat) : Text := List.replicate width ' '

/-- The text repeated `count` times. -/
def times (count : Nat) (t : Text) : Text := (List.replicate count t).flatten

/-- The texts in order, a comma and a blank between neighbours. -/
def commaList (ts : List Text) : Text := ", ".toList.intercalate ts

/-- What opens a block, behind its head: a blank and a brace. -/
def blockOpen : Text := [' ', '{']

/-- What closes a block: a brace. -/
def blockClose : Text := ['}']

/-- What closes the first block of a choice and stands in front of the second: `} else`, and a
blank. -/
def blockElse : Text := '}' :: " else ".toList

/-- The text without its first and last character, if these are a pair of parentheses around at
least one character, and the text itself otherwise. The two need not belong together. -/
def unwrap (t : Text) : Text :=
  if 3 ≤ t.length ∧ t.head? = some '(' ∧ t.getLast? = some ')' then t.tail.dropLast else t

/-- The number of line ends in a text. -/
def lineEnds (t : Text) : Nat := t.count '\n'

end Text

end EventScript
