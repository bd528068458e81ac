import EventScript.Text

/-!
Keywords: the names that a script may not use for its own, with what an editor shows about them.
-/

namespace EventScript

/-- The arguments of keywords that are not plain values. -/
inductive KeywordArgument where
  | condition
  | label
  | layers
deriving DecidableEq, Repr

/-- What an editor shows about a keyword. -/
structure Keyword where
  name : Text
  /-- The arguments, for a keyword that is called. -/
  arguments : Option (List KeywordArgument) := none
  explanation : Option Text := none
  /-- Whether it is shown as control flow. -/
  isHighlighted : Bool := false
  /-- Whether it stands as a statement, followed by a parenthesis. -/
  isControl : Bool := false
deriving DecidableEq, Repr

namespace Keyword

/-- All keywords. -/
def all : List Keyword := [
  { name := "EndEvent".toList
    explanation := some "Stops execution in the event and turns its flag on.".toList
    isControl := true },
  { name := "RestartEvent".toList
    explanation := some
      ("Stops execution in the event, turns its flags on, and continues from the top on the " ++
        "next frame.").toList
    isControl := true },
  { name := "EndIf".toList
    arguments := some [.condition]
    explanation := some
      "If the condition is true, stops execution in the event and turns its flag on.".toList
    isHighlighted := true
    isControl := true },
  { name := "RestartIf".toList
    arguments := some [.condition]
    explanation := some
      ("If the condition is true, stops execution in the event, turns its flags on, and " ++
        "continues from the top on the next frame.").toList
    isHighlighted := true
    isControl := true },
  { name := "Goto".toList
    arguments := some [.label]
    explanation := some "Unconditionally goes to the next instance of the given label.".toList
    isHighlighted := true
    isControl := true },
  { name := "GotoIf".toList
    arguments := some [.label, .condition]
    explanation := some
      "Goes to the next instance of the given label if the condition is true.".toList
    isHighlighted := true
    isControl := true },
  { name := "WaitFor".toList
    arguments := some [.condition]
    explanation := some
      ("Waits for the condition to become true. After this, all condition variables are " ++
        "reset.").toList
    isHighlighted := true
    isControl := true },
  { name := "NoOp".toList
    arguments := some []
    explanation := some
      "Does nothing. Not an instruction. Exists only as a target for labels.".toList
    isControl := true },
  { name := "Event".toList },
  { name := "$Event".toList },
  { name := "$LAYERS".toList
    arguments := some [.layers]
    explanation := some
      ("Added to the end of an instruction argument list to make it only run in certain " ++
        "ceremony layers.").toList }]

/-- The keyword of a name. -/
def find? (name : Text) : Option Keyword := all.find? fun k => k.name == name

/-- Whether a name is a keyword. -/
def isReserved (name : Text) : Bool := (find? name).isSome

example : (all.map name).Nodup := by decide

end Keyword

end EventScript
