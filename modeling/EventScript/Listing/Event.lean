import EventScript.Event
import EventScript.Layout.Render
import EventScript.Layout.Statement
import EventScript.Listing.Basic

/-!
The listing of an event.

* `Listing.statementPieces`, `Listing.bodyPieces`: the lines of statements at an indent;
* `Listing.ofEvent`: the header and the declaration of an event.
-/

namespace EventScript

namespace Listing

open Layout

/-! ### Bodies -/

/-- The lines that remarks put above their owner, at an indent. -/
def remarkLines (sp : Text) (remarks : List Remark) : List Piece :=
  (Remark.linesAbove remarks).map fun line => .plain (Remark.lineAt sp line)

/-- What stands in front of a statement: the lines of its remarks, and then its labels. -/
def leadPieces (sp : Text) (tags : Tags) : List Piece :=
  remarkLines sp tags.remarks ++ tags.labels.map fun name => .label name []

/-- The lines of a statement without its bodies, with `before` in front of its text. -/
def headPiece (p : Page) (sp before : Text) (s : Statement) : Piece :=
  .run s.tags.lines (s.layout.renderLine p sp before (Remark.suffix s.tags.remarks))

/-- The line that closes a block. -/
def closing (sp : Text) : Piece := .plain (sp ++ (Text.blockClose ++ ['\n']))

/-- The line between the two blocks of a choice. -/
def dividing (sp : Text) : Piece := .plain (sp ++ (Text.blockElse ++ ['{', '\n']))

/-- Whether a statement that does nothing is left out: it has no label, it does not give a label
in front of it something to stand at, and there is no remark on its line. -/
def isLeftOut (tags : Tags) (afterLabel : Bool) : Bool :=
  tags.labels.isEmpty && !afterLabel && (Remark.suffix tags.remarks).isEmpty

/-- The lines of an action. A label at the end of its body is given something to stand at. -/
def actionPieces (p : Page) (depth : Nat) (before : Text) (afterLabel isLast : Bool) (tags : Tags)
    (a : Action) : List Piece :=
  let sp := p.indentAt depth
  match a with
  | .label number =>
    [.run tags.lines [], .label (Label.name number) (Remark.suffix tags.remarks)] ++
      if isLast then [.plain (sp ++ "NoOp();\n".toList)] else []
  | .noOp =>
    if isLeftOut tags afterLabel then [.run tags.lines []]
    else [headPiece p sp before (.simple tags .noOp)]
  | a => [headPiece p sp before (.simple tags a)]

mutual

/-- The lines of a statement, `depth` steps in, with `before` in front of its text. It counts
whether it stands behind a numbered label, and whether it is the last of its body. -/
def statementPieces (p : Page) (depth : Nat) (before : Text) (afterLabel isLast : Bool) :
    Statement → List Piece
  | .simple tags a =>
    leadPieces (p.indentAt depth) tags ++ actionPieces p depth before afterLabel isLast tags a
  | .loop tags code body =>
    leadPieces (p.indentAt depth) tags ++
      headPiece p (p.indentAt depth) before (.loop tags code body) ::
        (bodyPieces p (depth + 1) [] false body ++ [closing (p.indentAt depth)])
  | .choice tags c yes no =>
    leadPieces (p.indentAt depth) tags ++
      headPiece p (p.indentAt depth) before (.choice tags c yes no) ::
        (bodyPieces p (depth + 1) [] false yes ++
          match no with
          | [] => [closing (p.indentAt depth)]
          | s :: rest =>
            if rest.isEmpty && s.isChoice && s.tags.labels.isEmpty then
              bodyPieces p depth Text.blockElse false (s :: rest)
            else
              dividing (p.indentAt depth) ::
                (bodyPieces p (depth + 1) [] false (s :: rest) ++ [closing (p.indentAt depth)]))

/-- The lines of a body, `depth` steps in, with `before` in front of the text of its first
statement. -/
def bodyPieces (p : Page) (depth : Nat) (before : Text) (afterLabel : Bool) :
    List Statement → List Piece
  | [] => []
  | s :: rest =>
    statementPieces p depth before afterLabel rest.isEmpty s ++
      bodyPieces p depth [] s.isLabel rest

end

/-! ### Events -/

/-- The header of an event, with a line end behind it if it has none. -/
def headerText (header : Text) : Text :=
  if header.getLast? = some '\n' then header else header ++ ['\n']

/-- The section of the header of an event. -/
def headerSection (e : Event) : List Section :=
  match e.header with
  | none => []
  | some header => [⟨e.headerLines, [.plain (headerText header)]⟩]

/-- The line that opens the declaration of an event. -/
def openingLine (e : Event) : Text :=
  e.declarationHead ++ Text.commaList e.parameters ++ (')' :: Text.blockOpen ++ ['\n'])

/-- The lines that close the declaration of an event. -/
def closingPieces (p : Page) (e : Event) : List Piece :=
  remarkLines p.indent e.closingRemarks ++
    [.plain (Event.closingMark ++ Remark.suffix e.closingRemarks ++ ['\n'])]

/-- The declaration of an event as pieces. -/
def declarationPieces (p : Page) (e : Event) : List Piece :=
  .plain (openingLine e) :: (bodyPieces p 1 [] false e.body ++ closingPieces p e)

/-- The listing of an event. Where the settings ask for it, the labels it declares more than once
are told apart. -/
def ofEvent (k : Settings) (e : Event) : Listing :=
  let pieces := declarationPieces (.ofSettings k) e
  headerSection e ++
    [⟨e.lines, if k.labelNaming.appliesTo e.id then tellApart [] pieces else pieces⟩]

end Listing

end EventScript
