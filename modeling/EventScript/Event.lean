import EventScript.Statement.Text
import EventScript.Statement.Transfer

/-!
Events: the top-level declarations of a script.

* `Event.text`: the printed text of an event on one line;
* `Event.allRemarks`: every remark in an event.
-/

namespace EventScript

/-- The id of an event, or the source text that stands for one that is not known yet. -/
inductive EventId where
  | number (n : Int)
  | placeholder (code : Text)
deriving DecidableEq, Repr

namespace EventId

/-- The id as a number, if it is known. -/
def toInt? : EventId → Option Int
  | number n => some n
  | placeholder _ => none

/-- The printed text of an id. -/
def text : EventId → Text
  | number n => Text.ofInt n
  | placeholder code => code

end EventId

/-- What an event does when the player rests. -/
inductive RestBehavior where
  | keep
  | restart
  | stop
deriving DecidableEq, Repr

namespace RestBehavior

/-- The printed name of a behavior. -/
def text : RestBehavior → Text
  | keep => "Default".toList
  | restart => "Restart".toList
  | stop => "End".toList

/-- The behavior of a name. -/
def ofText? (t : Text) : Option RestBehavior := [keep, restart, stop].find? fun r => r.text == t

@[simp] theorem ofText?_text (r : RestBehavior) : ofText? r.text = some r := by
  cases r <;> rfl

/-- The message about a name that is the name of no behavior. -/
def unknownMessage (t : Text) : Text := "Unknown rest behavior ".toList ++ t

end RestBehavior

/-- An event: its declaration, its body, and what is printed around them. -/
structure Event where
  id : EventId := .number 0
  rest : RestBehavior := .keep
  /-- Whether its body may use structured control flow. -/
  isStructured : Bool := false
  parameters : List Text := []
  body : Body := []
  /-- Text printed as it is in front of the declaration. -/
  header : Option Text := none
  headerLines : Option LineMap := none
  /-- The remarks in front of the end of the declaration. -/
  closingRemarks : List Remark := []
  lines : Option LineMap := none

namespace Event

/-- The keyword of the declaration. -/
def keyword (e : Event) : Text := if e.isStructured then "$Event".toList else "Event".toList

/-- The declaration up to the list of parameters. -/
def declarationHead (e : Event) : Text :=
  e.keyword ++ ['('] ++ e.id.text ++ ", ".toList ++ e.rest.text ++ ", function(".toList

/-- What closes the declaration: `});`. -/
def closingMark : Text := Text.blockClose ++ ");".toList

/-- The printed text of an event on one line. -/
def text (e : Event) : Text :=
  e.declarationHead ++ ",".toList.intercalate e.parameters ++ [')'] ++ Text.blockOpen ++ [' '] ++
    " ".toList.intercalate (e.body.map Statement.text) ++ [' '] ++ closingMark

/-- Every remark in an event: those in its body, and then the closing ones. -/
def allRemarks (e : Event) : List Remark := Body.allRemarks e.body ++ e.closingRemarks

/-- Visits the statements of an event with a state. -/
def edit {σ : Type} (visit : Statement → σ → Statement × σ) (e : Event) (st : σ) : Event × σ :=
  let (body, st) := Body.edit visit e.body st
  ({ e with body := body }, st)

/-- Changes every statement of an event by itself, nested ones first. -/
def mapAll (f : Statement → Statement) (e : Event) : Event :=
  { e with body := Body.mapAll f e.body }

/-- Moves the remarks on a statement to the closing remarks of the event, for a statement that is
dropped from the end of a body. -/
def takeRemarks (e : Event) (s : Statement) : Event × Statement :=
  ({ e with closingRemarks := e.closingRemarks ++ s.tags.remarks }, s.withRemarks [])

end Event

end EventScript
