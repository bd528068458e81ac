import EventScript.Text

/-!
Remarks: the comments and blank lines that statements and conditions carry along.

A remark above its owner becomes a line of its own, and a trailing one is appended to a line.

* `Remark.text`: what a remark contributes to the line it ends up on;
* `Remark.linesAbove`, `Remark.suffix`: the lines and the line suffix a list of remarks stands for.
-/

namespace EventScript

/-- Where a remark is printed. -/
inductive RemarkKind where
  /-- A comment on a line of its own above. -/
  | above
  /-- A comment at the end of the line. -/
  | trailing
  /-- An empty line above. -/
  | blank
deriving DecidableEq, Repr

/-- A comment or blank line that changes nothing about what the script does. -/
structure Remark where
  kind : RemarkKind
  comment : Text
  /-- The source line it was read from. -/
  line : UInt32
  /-- The offset in the source it was read from. -/
  position : Nat
  /-- Whether it belonged to a condition, so that it can be given back to one. -/
  forCondition : Bool
deriving DecidableEq, Repr

namespace Remark

/-- A remark with no place in the source. -/
def ofComment (kind : RemarkKind) (comment : Text) : Remark := ⟨kind, comment, 0, 0, false⟩

/-- Whether the remark is a line of its own. -/
def isAbove (r : Remark) : Bool :=
  match r.kind with
  | .above | .blank => true
  | .trailing => false

/-- Whether the remark is appended to a line. -/
def isTrailing (r : Remark) : Bool := !r.isAbove

/-- The text the remark contributes to a printed line: nothing for a blank line, whatever its
comment, and a comment led by a blank at the end of a line. -/
def text (r : Remark) : Text :=
  match r.kind with
  | .above => r.comment
  | .blank => []
  | .trailing => ' ' :: r.comment

/-- The name of a remark with its comment, for messages. -/
def label (r : Remark) : Text :=
  (match r.kind with
    | .above => "PRE_COMMENT".toList
    | .trailing => "POST_COMMENT".toList
    | .blank => "PRE_BLANK".toList) ++ ['['] ++ r.comment ++ [']']

/-- The lines that the remarks put above their owner. -/
def linesAbove (rs : List Remark) : List Text := (rs.filter isAbove).map text

/-- The text that the remarks append to the line of their owner. -/
def suffix (rs : List Remark) : Text := ((rs.filter isTrailing).map text).flatten

@[simp] theorem linesAbove_append (rs ss : List Remark) :
    linesAbove (rs ++ ss) = linesAbove rs ++ linesAbove ss := by
  rw [linesAbove, List.filter_append, List.map_append]
  rfl

@[simp] theorem suffix_append (rs ss : List Remark) :
    suffix (rs ++ ss) = suffix rs ++ suffix ss := by
  rw [suffix, List.filter_append, List.map_append, List.flatten_append]
  rfl

/-- One line put above a statement at an indent; an empty one is left without the indent. -/
def lineAt (sp line : Text) : Text := if line.isEmpty then ['\n'] else sp ++ line ++ ['\n']

end Remark

end EventScript
