import EventScript.Label
import EventScript.Sink

/-!
Listings: printed text before it is written, with the declarations of labels and the line maps in
it.

A listing is a list of sections, one for the header and one for the declaration of each event, and a
section is a list of pieces. Every piece and every section may have source lines, which are mapped
to the lines it is printed on.

* `Listing.text`: the printed text;
* `Listing.tellApart`: the pieces with repeated declarations of labels renamed;
* `Writer.print`: a listing written, with its line maps in the order in which they start.
-/

namespace EventScript

namespace Listing

/-- A part of a printed text that is written at once. -/
inductive Piece where
  /-- A text, which may be empty, that comes from source lines if there are any. -/
  | run (source : Option LineMap) (text : Text)
  /-- The declaration of a label on a line of its own, with the remarks at its end. -/
  | label (name suffix : Text)
deriving DecidableEq, Repr

/-- A text without source lines. -/
def Piece.plain (t : Text) : Piece := .run none t

/-- The text of a piece. -/
def Piece.text : Piece → Text
  | .run _ t => t
  | .label name suffix => name ++ [':'] ++ suffix ++ ['\n']

/-- The source lines of a piece. -/
def Piece.source? : Piece → Option LineMap
  | .run source _ => source
  | .label _ _ => none

/-- Pieces that come from source lines together, if there are any. -/
structure Section where
  source : Option LineMap
  pieces : List Piece
deriving DecidableEq, Repr

end Listing

/-- A printed text before it is written. -/
abbrev Listing := List Listing.Section

namespace Listing

/-- The text of a section. -/
def Section.text (s : Section) : Text := s.pieces.flatMap Piece.text

/-- The text of a listing. -/
def text (l : Listing) : Text := l.flatMap Section.text

@[simp] theorem text_append (k l : Listing) : text (k ++ l) = text k ++ text l :=
  List.flatMap_append

/-! ### Repeated labels -/

/-- A name with a number of underscores behind it. -/
def underscored (name : Text) (n : Nat) : Text := name ++ List.replicate n '_'

/-- The number of underscores that make one name of another, if underscores do. -/
def underscores? : Text → Text → Option Nat
  | [], rest => if rest.all (· == '_') then some rest.length else none
  | _ :: _, [] => none
  | c :: name, d :: longer => if c = d then underscores? name longer else none

/-- The least number that is not listed; it is at most the length of the list. -/
def leastMissing (ns : List Nat) : Nat :=
  ((List.range ns.length).find? fun n => !ns.contains n).getD ns.length

/-- The name under which a label is declared when the names in `used` are taken: the name with as
few underscores behind it as make it new. -/
def newName (used : List Text) (name : Text) : Text :=
  underscored name (leastMissing (used.filterMap (underscores? name)))

/-- Underscores are counted right. -/
theorem underscores?_eq_some_iff {name longer : Text} {n : Nat} :
    underscores? name longer = some n ↔ longer = underscored name n := by
  induction name generalizing longer with
  | nil => simp [underscores?, underscored, List.eq_replicate_iff, and_comm]
  | cons c name ih =>
    cases longer with
    | nil => simp [underscores?, underscored]
    | cons d longer =>
      by_cases h : c = d
      · simp only [underscores?, h, if_true, ih]
        simp [underscored]
      · simp [underscores?, underscored, h, Ne.symm h]

/-- The pieces with every label declared under a new name, in the order in which they stand. -/
def tellApart (used : List Text) : List Piece → List Piece
  | [] => []
  | .run source t :: rest => .run source t :: tellApart used rest
  | .label name suffix :: rest =>
    .label (newName used name) suffix :: tellApart (newName used name :: used) rest

end Listing

/-! ### Writing -/

namespace Writer

/-- The line maps of what comes from source lines and was printed between two states of a writer:
one, or none without source lines. -/
def mapsBetween (source : Option LineMap) (before after : Writer) : List LineMap :=
  (source.map fun m => (m.start before.line).stop after.line).toList

/-- Writes pieces, and returns their line maps unless the sink refused one of them. -/
def printPieces : Writer → List Listing.Piece → Writer × Option (List LineMap)
  | w, [] => (w, some [])
  | w, p :: rest =>
    match w.write p.text with
    | (after, false) => (after, none)
    | (after, true) =>
      let (final, maps) := printPieces after rest
      (final, maps.map (mapsBetween p.source? w after ++ ·))

/-- Writes the sections of a listing, and returns their line maps unless the sink refused a piece.
The map of a section comes before those of its pieces. -/
def print : Writer → Listing → Writer × Option (List LineMap)
  | w, [] => (w, some [])
  | w, s :: rest =>
    match w.printPieces s.pieces with
    | (after, none) => (after, none)
    | (after, some maps) =>
      let (final, further) := print after rest
      (final, further.map ((mapsBetween s.source w after ++ maps) ++ ·))

end Writer

end EventScript
