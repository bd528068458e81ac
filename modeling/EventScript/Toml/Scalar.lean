import EventScript.Toml.Item

/-!
Values of TOML that stand without quotes: numbers, truth values, dates and times.

Digits may be grouped by single underscores. An integer is decimal with an optional sign and without
leading zeros, or hexadecimal, octal or binary behind its mark. Numbers that are too large to be
stored are refused, whoever asks for them.

* `Toml.integer?`, `Toml.float?`: the value of an integer, and the digits and the scale of a
  floating-point number;
* `Toml.isMoment`: whether a text is a date, a time, or both;
* `Toml.scalar?`: the value that a text stands for.
-/

namespace EventScript.Toml

/-! ### Digits -/

/-- The digits of a text in which single underscores may stand between two digits. -/
def ungroup (isDigit : Char → Bool) : Text → Option Text
  | [] => none
  | [c] => if isDigit c then some [c] else none
  | c :: '_' :: rest => if isDigit c then (ungroup isDigit rest).map (c :: ·) else none
  | c :: rest => if isDigit c then (ungroup isDigit rest).map (c :: ·) else none

/-- The value of a digit in any base up to sixteen. -/
def digitValue (c : Char) : Nat :=
  if c.isDigit then c.toNat - '0'.toNat
  else if 'a' ≤ c ∧ c ≤ 'f' then c.toNat - 'a'.toNat + 10
  else if 'A' ≤ c ∧ c ≤ 'F' then c.toNat - 'A'.toNat + 10
  else 16

/-- The number written by grouped digits in a base. -/
def natural? (base : Nat) (t : Text) : Option Nat :=
  (ungroup (fun c => digitValue c < base) t).map fun ds =>
    ds.foldl (fun n c => base * n + digitValue c) 0

/-- The sign of a text, true for minus, and what follows it. -/
def signed : Text → Bool × Text
  | '+' :: t => (false, t)
  | '-' :: t => (true, t)
  | t => (false, t)

/-- Whether a text begins with a zero and goes on. -/
def hasLeadingZero (t : Text) : Bool := t.head? == some '0' && decide (1 < t.length)

/-! ### Integers -/

/-- The value of an integer of any size. -/
def integer? : Text → Option Int
  | '0' :: 'x' :: t => (natural? 16 t).map (fun n => (n : Int))
  | '0' :: 'o' :: t => (natural? 8 t).map (fun n => (n : Int))
  | '0' :: 'b' :: t => (natural? 2 t).map (fun n => (n : Int))
  | t =>
    let (isNegative, t) := signed t
    if hasLeadingZero t then none
    else (natural? 10 t).map fun n => if isNegative then -(n : Int) else n

/-- Whether an integer can be stored: in 128 bits, with a sign or without. -/
def fitsInteger (n : Int) : Bool :=
  decide (-(Nat.pow 2 127 : Int) ≤ n ∧ n < (Nat.pow 2 128 : Int))

/-! ### Floating-point numbers -/

/-- The exponent behind its letter. -/
def exponent? : Text → Option Int
  | c :: t =>
    if c = 'e' ∨ c = 'E' then
      let (isNegative, t) := signed t
      (natural? 10 t).map fun n => if isNegative then -(n : Int) else n
    else none
  | [] => none

/-- Whether a character belongs to a run of grouped digits. -/
def isGrouped (c : Char) : Bool := c.isDigit || c == '_'

/-- The digits of a floating-point number without its sign, and the power of ten that scales them.
It is an integer with a fraction, an exponent or both. -/
def float? (t : Text) : Option (Text × Int) := do
  if hasLeadingZero (t.takeWhile isGrouped) then none
  let whole ← ungroup Char.isDigit (t.takeWhile isGrouped)
  match t.dropWhile isGrouped with
  | '.' :: rest =>
    let places ← ungroup Char.isDigit (rest.takeWhile isGrouped)
    let e ← match rest.dropWhile isGrouped with
      | [] => some 0
      | rest => exponent? rest
    some (whole ++ places, e - (places.length : Int))
  | rest => (exponent? rest).map fun e => (whole, e)

/-- The least number that is rounded to infinity: half a unit of the last place above the greatest
number of 64 bits. -/
def infinite : Nat := (Nat.pow 2 54 - 1) * Nat.pow 2 970

/-- Whether digits scaled by a power of ten stay below `infinite`, which has 309 digits. Numbers
with more or fewer digits in front of the point are told without the power. -/
def fitsFloat (digits : Text) (e : Int) : Bool :=
  let ds := digits.dropWhile (· == '0')
  let n := Nat.ofDigitChars 10 ds 0
  let places := (ds.length : Int) + e
  if n = 0 ∨ places < 309 then true
  else if 309 < places then false
  else decide (n * Nat.pow 10 e.toNat < infinite * Nat.pow 10 (-e).toNat)

example : fitsFloat "17976931348623158".toList 292 = true := by decide +kernel
example : fitsFloat "17976931348623159".toList 292 = false := by decide +kernel

/-! ### Dates and times -/

/-- The number of two digits. -/
def pair? : Text → Option (Nat × Text)
  | c :: d :: t =>
    if c.isDigit ∧ d.isDigit then some (10 * digitValue c + digitValue d, t) else none
  | _ => none

/-- The days of a month. -/
def daysOf (year month : Nat) : Nat :=
  if month = 2 then
    if year % 4 = 0 ∧ (year % 100 ≠ 0 ∨ year % 400 = 0) then 29 else 28
  else if [4, 6, 9, 11].contains month then 30
  else 31

/-- What follows a date, if a text begins with one. -/
def afterDate? (t : Text) : Option Text := do
  let (century, t) ← pair? t
  let (year, t) ← pair? t
  match t with
  | '-' :: t =>
    let (month, t) ← pair? t
    match t with
    | '-' :: t =>
      let (day, t) ← pair? t
      if 1 ≤ month ∧ month ≤ 12 ∧ 1 ≤ day ∧ day ≤ daysOf (100 * century + year) month then some t
      else none
    | _ => none
  | _ => none

/-- What follows hours and minutes, if a text begins with them. -/
def afterMinutes? (t : Text) : Option Text := do
  let (hour, t) ← pair? t
  match t with
  | ':' :: t =>
    let (minute, t) ← pair? t
    if hour ≤ 23 ∧ minute ≤ 59 then some t else none
  | _ => none

/-- What follows a time, if a text begins with one. The seconds may be left out, and a minute may
have a leap second. -/
def afterTime? (t : Text) : Option Text := do
  match ← afterMinutes? t with
  | ':' :: t =>
    let (second, t) ← pair? t
    if 60 < second then none
    match t with
    | '.' :: t => if (t.takeWhile Char.isDigit).isEmpty then none else t.dropWhile Char.isDigit
    | t => some t
  | t => some t

/-- Whether a text is nothing, or the distance of a time from the universal one. -/
def isOffset : Text → Bool
  | [] => true
  | [c] => c == 'Z' || c == 'z'
  | c :: t => (c == '+' || c == '-') && afterMinutes? t == some []

/-- Whether a text is a date, a time, or a date with a time behind it. -/
def isMoment (t : Text) : Bool :=
  match afterDate? t with
  | none => afterTime? t == some []
  | some [] => true
  | some (c :: t) => (c == 'T' || c == 't' || c == ' ') && ((afterTime? t).map isOffset).getD false

/-! ### All together -/

/-- The value that a text without quotes stands for. -/
def scalar? (t : Text) : Option Item :=
  if t = "true".toList then some (.flag true)
  else if t = "false".toList then some (.flag false)
  else if ["inf".toList, "nan".toList].contains (signed t).2 then some .float
  else
    match integer? t with
    | some n => if fitsInteger n then some (.integer n) else none
    | none =>
      match float? (signed t).2 with
      | some (digits, e) => if fitsFloat digits e then some .float else none
      | none => if isMoment t then some .moment else none

end EventScript.Toml
