import EventScript.LineMap

/-!
Where printed text goes.

* `Sink.write`: a sink with limited room keeps of a text what fits, and refuses the rest;
* `Writer.write`: the same, and counts the line ends, by which line maps are stamped.
-/

namespace EventScript

/-- A receiver of text. -/
structure Sink where
  /-- How many characters it still takes, if it does not take any number. -/
  room : Option Nat
  /-- The texts it took, the last one first. -/
  taken : List Text
deriving DecidableEq, Repr

namespace Sink

/-- A sink that takes any text. -/
def unbounded : Sink := ⟨none, []⟩

/-- A sink that takes a number of characters. -/
def bounded (limit : Nat) : Sink := ⟨some limit, []⟩

/-- The text that a sink has received. -/
def received (s : Sink) : Text := s.taken.reverse.flatten

/-- Hands a text to a sink, and tells whether it was taken whole. -/
def write (s : Sink) (t : Text) : Sink × Bool :=
  match s.room with
  | none => (⟨none, t :: s.taken⟩, true)
  | some room => (⟨some (room - t.length), t.take room :: s.taken⟩, decide (t.length ≤ room))

/-- What is taken is put behind what was received before. -/
@[simp] theorem received_cons (room : Option Nat) (t : Text) (ts : List Text) :
    received ⟨room, t :: ts⟩ = received ⟨room, ts⟩ ++ t := by
  simp [received]

end Sink

/-- A sink with the number of line ends that were handed to it. -/
structure Writer where
  sink : Sink
  line : UInt32
deriving DecidableEq, Repr

namespace Writer

/-- A writer that has written nothing. -/
def ofSink (s : Sink) : Writer := ⟨s, 0⟩

/-- Writes a text, and tells whether the sink took it whole. The lines of what the sink refused
count too. -/
def write (w : Writer) (t : Text) : Writer × Bool :=
  let (sink, taken) := w.sink.write t
  (⟨sink, w.line + UInt32.ofNat (Text.lineEnds t)⟩, taken)

end Writer

end EventScript
