import EventScript.Text

/-!
Ceremony layers: sets of numbers below 32, kept as the mask of their bits.

* `Layers.toList`: the layers of a mask, in increasing order;
* `Layers.ofList`: the mask of a list of layers, whatever its order and repetitions.
-/

namespace EventScript

/-- The set of ceremony layers in which a command runs: layer `i` belongs to it if bit `i` of the
mask is set. -/
structure Layers where
  mask : BitVec 32
deriving DecidableEq, Repr

namespace Layers

/-- The mask with the bits of the listed layers; numbers past the last layer are left out. -/
def ofList (layers : List Nat) : Layers :=
  ⟨layers.foldl (fun mask i => if i < 32 then mask ||| BitVec.twoPow 32 i else mask) 0⟩

/-- The layers of the set in increasing order. -/
def toList (l : Layers) : List Nat :=
  (List.range 32).filter fun i => l.mask.getLsbD i

/-- The printed text of the set, as the last argument of a command. -/
def text (l : Layers) : Text :=
  "$LAYERS(".toList ++ Text.commaList (l.toList.map Text.ofNat) ++ [')']

end Layers

end EventScript
