import EventScript.Layout.Tree
import EventScript.Layout.Pending
import EventScript.Text.Blank
import EventScript.Settings

/-!
Breaking the line of a statement.

A fragment that fits into the column limit stays on its line. One that does not is broken between
its parts: the first part stays where it is, and each further one starts a line of its own, one step
further in, with the separator in front. A fragment with a single part leaves the break to it.

* `Layout.Tree.render`: the text of a fragment from a column on, with the remarks that wait;
* `Layout.Tree.renderLine`: the lines of a statement.
-/

namespace EventScript.Layout

/-- What decides where a line is broken: the column limit, and the step of the indent. -/
structure Page where
  columnLimit : Nat
  indent : Text
deriving DecidableEq, Repr

/-- The page of the settings. -/
def Page.ofSettings (k : Settings) : Page := ⟨k.columnLimit, Text.indent k.indentWidth⟩

/-- The indent of a number of steps. -/
def Page.indentAt (p : Page) (depth : Nat) : Text := Text.times depth p.indent

namespace Tree

/-- Whether a fragment fits on the line at a column, with `trailing` more characters behind it. -/
def fits (p : Page) (column trailing : Nat) (t : Tree) : Bool :=
  decide (column + t.width + trailing ≤ p.columnLimit)

/-- A fragment without breaks; its remarks wait. -/
def renderFlat (t : Tree) (pending : Pending) : Text × Pending :=
  (t.oneLine, pending.add t.allRemarks)

mutual

/-- The text of a fragment that starts at a column of a line with indent `sp` and has `trailing`
more characters behind it on its last line. The indent of the first line and the end of the last
one are not part of it. -/
def render (p : Page) (sp : Text) (column trailing : Nat) : Tree → Pending → Text × Pending
  | node opening parts separator closing remarks, pending =>
    if fits p column trailing (node opening parts separator closing remarks) then
      renderFlat (node opening parts separator closing remarks) pending
    else
      match parts with
      | [] => renderFlat (node opening [] separator closing remarks) pending
      | [only] =>
        let (t, pending) :=
          render p sp (column + opening.length) (trailing + closing.length) only
            (pending.add remarks)
        (opening ++ t ++ closing, pending)
      | first :: second :: rest =>
        let (t, pending) := render p sp (column + opening.length) 0 first (pending.add remarks)
        let (head, pending) := pending.lineEnd (Text.trimEnd (opening ++ t))
        let (tail, pending) :=
          renderRest p (sp ++ p.indent) (Text.trimStart separator) closing trailing (second :: rest)
            pending
        (head ++ tail, pending)

/-- The text of the further parts of a broken fragment, each on a line of its own with indent `sp`
and the mark of the separator in front. The last one is followed by the closing text, and its line
is not ended. -/
def renderRest (p : Page) (sp mark closing : Text) (trailing : Nat) :
    List Tree → Pending → Text × Pending
  | [], pending => ([], pending)
  | [last], pending =>
    let (t, pending) :=
      render p sp (sp.length + mark.length) (closing.length + trailing) last pending
    pending.lineStart (mark ++ t ++ closing) sp
  | middle :: next :: rest, pending =>
    let (t, pending) := render p sp (sp.length + mark.length) 0 middle pending
    let (line, pending) := pending.line (mark ++ t) sp
    let (tail, pending) := renderRest p sp mark closing trailing (next :: rest) pending
    (line ++ tail, pending)

end

/-- The lines of a statement at an indent, with its remarks, between a text in front on the first
line and one behind on the last. -/
def renderLine (p : Page) (sp before behind : Text) (t : Tree) : Text :=
  let (text, pending) := t.render p sp (sp.length + before.length) 0 .none
  (pending.line (before ++ text ++ behind) sp).1

end Tree

end EventScript.Layout
