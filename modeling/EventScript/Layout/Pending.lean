import EventScript.Remark

/-!
Remarks that wait for a line.

While a statement is laid out, its remarks are collected. Those that are lines of their own are
printed before the next line that is started, and the others are appended to the next line that is
ended.

* `Layout.Pending.line`, `Layout.Pending.lineStart`, `Layout.Pending.lineEnd`: a line, or one end of
  it, with the remarks it takes, and the remarks that wait on.
-/

namespace EventScript.Layout

/-- The remarks that wait: lines of their own, and the suffix of a line. -/
structure Pending where
  lines : List Text
  suffix : Text
deriving DecidableEq, Repr

namespace Pending

/-- No remarks. -/
def none : Pending := ⟨[], []⟩

/-- Whether no remarks wait. An empty line waits like any other. -/
def isEmpty (p : Pending) : Bool := p.lines.isEmpty && p.suffix.isEmpty

/-- Further remarks join those that wait. -/
def add (p : Pending) (remarks : List Remark) : Pending :=
  ⟨p.lines ++ Remark.linesAbove remarks, p.suffix ++ Remark.suffix remarks⟩

/-- No remarks change nothing. -/
@[simp] theorem add_nil (p : Pending) : p.add [] = p := by
  simp [add, Remark.linesAbove, Remark.suffix]

/-- Remarks join those that wait in the order in which they are added. -/
theorem add_add (p : Pending) (rs ss : List Remark) : (p.add rs).add ss = p.add (rs ++ ss) := by
  simp [add]

/-- The lines that wait, at an indent. -/
def linesAt (p : Pending) (sp : Text) : Text := (p.lines.map (Remark.lineAt sp)).flatten

/-- A whole line at an indent; it takes all remarks. -/
def line (p : Pending) (t sp : Text) : Text × Pending :=
  (p.linesAt sp ++ sp ++ t ++ p.suffix ++ ['\n'], none)

/-- The start of a line at an indent; it leaves the suffix to the end of the line. -/
def lineStart (p : Pending) (t sp : Text) : Text × Pending :=
  (p.linesAt sp ++ sp ++ t, ⟨[], p.suffix⟩)

/-- The end of a line; it leaves the lines to the next line. -/
def lineEnd (p : Pending) (t : Text) : Text × Pending :=
  (t ++ p.suffix ++ ['\n'], ⟨p.lines, []⟩)

end Pending

end EventScript.Layout
