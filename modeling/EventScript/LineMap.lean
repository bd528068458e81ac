import EventScript.Text

/-!
Line maps: which lines of the printed text a stretch of source lines ended up on.

* `LineMap.sourceLine?`: the source line behind a printed line, from the map that starts last among
  those that hold it;
* `LineMap.printedLine?`: the first printed line of a source line, from the narrowest of the maps
  that hold it.
-/

namespace EventScript

/-- A range of source lines with the range of lines it was printed on. Lines count from one, and
the printed ones are zero until the text is printed. -/
structure LineMap where
  source : UInt32
  sourceEnd : UInt32
  printed : UInt32
  printedEnd : UInt32
deriving DecidableEq, Repr

namespace LineMap

/-- The map of a source range that is not printed yet. Its end is raised to its start. -/
def ofSource (first last : UInt32) : LineMap := ⟨first, max last first, 0, 0⟩

/-- The map of one source line that is not printed yet. -/
def ofLine (line : UInt32) : LineMap := ofSource line line

/-- Whether the source range holds a line. -/
def holdsSource (m : LineMap) (line : UInt32) : Bool :=
  decide (m.source ≤ line ∧ line ≤ m.sourceEnd)

/-- Whether the printed range holds a line. -/
def holdsPrinted (m : LineMap) (line : UInt32) : Bool :=
  decide (m.printed ≤ line ∧ line ≤ m.printedEnd)

/-- The map of an owner whose text starts after `line` line ends. -/
def start (m : LineMap) (line : UInt32) : LineMap :=
  { m with printed := line + 1, printedEnd := line + 1 }

/-- The map of an owner whose text has ended after `line` line ends; it never ends before it
starts. -/
def stop (m : LineMap) (line : UInt32) : LineMap := { m with printedEnd := max line m.printed }

/-- The printed text of a map, for messages. -/
def text (m : LineMap) : Text :=
  "LineMapping".toList ++ '{' :: "output=".toList ++ Text.ofNat m.printed.toNat ++
    ", source=".toList ++ Text.ofNat m.source.toNat ++ [':'] ++ Text.ofNat m.sourceEnd.toNat ++
    ['}']

/-! ### Order -/

/-- The numbers that order two maps, the most important first. -/
def key (m : LineMap) : List UInt32 := [m.printed, m.printedEnd, m.source, m.sourceEnd]

/-- Maps are ordered by their printed range, then by their source range. -/
def before (m n : LineMap) : Bool := decide (m.key < n.key)

/-- The maps in order. -/
def sort (maps : List LineMap) : List LineMap := maps.mergeSort fun m n => !n.before m

/-! ### Look-up -/

/-- The last entry among those with the greatest key. -/
def lastGreatest (key : LineMap → UInt32) : List LineMap → Option LineMap
  | [] => none
  | m :: rest =>
    match lastGreatest key rest with
    | none => some m
    | some n => if key m ≤ key n then some n else some m

/-- The first entry among those with the least key. -/
def firstLeast (key : LineMap → UInt32) : List LineMap → Option LineMap
  | [] => none
  | m :: rest =>
    match firstLeast key rest with
    | none => some m
    | some n => if key m ≤ key n then some m else some n

/-- The source line behind a printed line. -/
def sourceLine? (maps : List LineMap) (line : UInt32) : Option UInt32 :=
  (lastGreatest printed (maps.filter (·.holdsPrinted line))).map source

/-- The first line on which a source line was printed. The range of a map that holds a line is not
reversed, so its length does not wrap around. -/
def printedLine? (maps : List LineMap) (line : UInt32) : Option UInt32 :=
  (firstLeast (fun m => m.sourceEnd - m.source) (maps.filter (·.holdsSource line))).map printed

end LineMap

end EventScript
