import EventScript.Command
import EventScript.Remark

/-!
Conditions: what a control statement waits for, tests or stores.

A condition is a comparison, a built-in query, a read of a condition group or variable, a
placeholder for one that could not be read, or a combination of conditions; each may be negated and
may carry remarks. The query `Always` without arguments stands for no condition at all.
-/

namespace EventScript

/-! ### Comparisons -/

/-- The relation that a comparison tests. -/
inductive Comparison where
  | equal
  | notEqual
  | greater
  | less
  | greaterOrEqual
  | lessOrEqual
deriving DecidableEq, Repr

namespace Comparison

/-- The relation that holds exactly where this one does not. -/
def opposite : Comparison → Comparison
  | equal => notEqual
  | notEqual => equal
  | greater => lessOrEqual
  | lessOrEqual => greater
  | less => greaterOrEqual
  | greaterOrEqual => less

@[simp] theorem opposite_opposite (c : Comparison) : c.opposite.opposite = c := by
  cases c <;> rfl

/-- The operator of a relation. -/
def symbol : Comparison → Text
  | equal => "==".toList
  | notEqual => "!=".toList
  | greater => ">".toList
  | less => "<".toList
  | greaterOrEqual => ">=".toList
  | lessOrEqual => "<=".toList

/-- All relations. -/
def all : List Comparison := [equal, notEqual, greater, less, greaterOrEqual, lessOrEqual]

/-- The relation of an operator. -/
def ofSymbol? (t : Text) : Option Comparison := all.find? fun c => c.symbol == t

@[simp] theorem ofSymbol?_symbol (c : Comparison) : ofSymbol? c.symbol = some c := by
  cases c <;> rfl

end Comparison

/-! ### Conditions without parts -/

/-- A built-in query with its arguments. -/
structure Query where
  name : Text
  arguments : List Value
deriving DecidableEq, Repr

/-- The printed text of a query. -/
def Query.text (q : Query) : Text := q.name ++ ['('] ++ argumentsText q.arguments none ++ [')']

/-- What a comparison tests against a value. -/
inductive Operand where
  | value (v : Value)
  | query (q : Query)
deriving DecidableEq, Repr

/-- The printed text of an operand. -/
def Operand.text : Operand → Text
  | value v => v.text
  | query q => q.text

/-- A condition without parts. -/
inductive Atom where
  | compare (relation : Comparison) (left : Operand) (right : Value)
  | query (q : Query)
  /-- A read of a condition group, or of a condition variable if it has a name; a compiled one
  reads the result that was stored last. -/
  | read (group : Int) (compiled : Bool) (name : Option Text)
  /-- A placeholder for a condition that could not be read. -/
  | unreadable (message : Option Text)
deriving DecidableEq, Repr

/-- The mark of a negation. -/
def negationMark (negated : Bool) : Text := if negated then ['!'] else []

namespace Atom

/-- The query that stands for no condition. -/
def always : Atom := query ⟨"Always".toList, []⟩

/-- The printed text of a condition without parts. A negated comparison is printed with the
opposite operator, and any other negation by a mark in front. -/
def text (negated : Bool) : Atom → Text
  | compare relation left right =>
    left.text ++ [' '] ++ (if negated then relation.opposite else relation).symbol ++ [' '] ++
      right.text
  | query q => negationMark negated ++ q.text
  | read group compiled name =>
    negationMark negated ++
      (match name with
        | some name => name
        | none => "cond[".toList ++ Text.ofInt group ++ [']']) ++
      (if compiled then ".Passed".toList else [])
  | unreadable (some message) =>
    negationMark negated ++ "ERROR(\"".toList ++ message ++ "\")".toList
  | unreadable none => negationMark negated ++ "ERROR()".toList

end Atom

/-! ### Conditions -/

/-- How the parts of a combination are joined. -/
inductive Connective where
  | all
  | any
deriving DecidableEq, Repr

/-- The printed text between two parts. -/
def Connective.separator : Connective → Text
  | all => " && ".toList
  | any => " || ".toList

/-- A condition, with its negation flag and its remarks. -/
inductive Condition where
  | atom (a : Atom) (negated : Bool) (remarks : List Remark)
  | combine (op : Connective) (parts : List Condition) (negated : Bool) (remarks : List Remark)
deriving Repr

namespace Condition

/-- No condition at all. -/
def always : Condition := atom .always false []

/-- A read of the condition variable of a name. -/
def readOf (name : Text) : Condition := atom (.read 0 false (some name)) false []

/-- Whether the condition is the sentinel for none at all. The negation flag does not count. -/
def isAlways : Condition → Bool
  | atom a _ _ => decide (a = .always)
  | combine .. => false

/-- Whether the condition is a combination. -/
def isCombination : Condition → Bool
  | atom .. => false
  | combine .. => true

/-- The negation flag. -/
def negated : Condition → Bool
  | atom _ negated _ => negated
  | combine _ _ negated _ => negated

/-- The remarks on the condition itself, those on its parts left out. -/
def remarks : Condition → List Remark
  | atom _ _ remarks => remarks
  | combine _ _ _ remarks => remarks

/-- The condition with the negation flag turned over. -/
def negate : Condition → Condition
  | atom a negated remarks => atom a (!negated) remarks
  | combine op parts negated remarks => combine op parts (!negated) remarks

/-- The condition with other remarks. -/
def withRemarks (rs : List Remark) : Condition → Condition
  | atom a negated _ => atom a negated rs
  | combine op parts negated _ => combine op parts negated rs

end Condition

end EventScript
