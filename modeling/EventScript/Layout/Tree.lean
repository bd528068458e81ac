import EventScript.Remark

/-!
Layout trees: the fragments of a statement with the places where its line may be broken.

A node is an opening text, parts with a separator between neighbours, and a closing text; its line
may be broken between parts.

* `Layout.Tree.oneLine`: the text without breaks;
* `Layout.Tree.width`: its width;
* `Layout.Tree.allRemarks`: the remarks on the nodes, each node before its parts.
-/

namespace EventScript.Layout

/-- A fragment of a statement. -/
inductive Tree where
  | node (opening : Text) (parts : List Tree) (separator closing : Text) (remarks : List Remark)

namespace Tree

/-- A fragment that is never broken. -/
def leaf (t : Text) (remarks : List Remark) : Tree := node t [] [] [] remarks

/-- A fragment with a text in front that stays on its line when the fragment moves to the next. -/
def behind (opening : Text) (t : Tree) (closing : Text) : Tree :=
  node [] [leaf opening [], t] [] closing []

/-- A fragment with texts that stay attached to it. -/
def between (opening : Text) (t : Tree) (closing : Text) : Tree := node opening [t] [] closing []

/-- Whether a fragment has no parts. -/
def isLeaf : Tree → Bool
  | node _ parts _ _ _ => parts.isEmpty

mutual

/-- The width of the text without breaks. -/
def width : Tree → Nat
  | node opening parts separator closing _ =>
    opening.length + closing.length + partsWidth parts + separator.length * (parts.length - 1)

/-- The width of the parts of a node, separators left out. -/
def partsWidth : List Tree → Nat
  | [] => 0
  | t :: ts => t.width + partsWidth ts

end

mutual

/-- The text without breaks. -/
def oneLine : Tree → Text
  | node opening parts separator closing _ =>
    opening ++ separator.intercalate (partTexts parts) ++ closing

/-- The texts of the parts of a node, without breaks. -/
def partTexts : List Tree → List Text
  | [] => []
  | t :: ts => t.oneLine :: partTexts ts

end

mutual

/-- The remarks of a fragment: those of a node before those of its parts. -/
def allRemarks : Tree → List Remark
  | node _ parts _ _ remarks => remarks ++ partRemarks parts

/-- The remarks of the parts of a node. -/
def partRemarks : List Tree → List Remark
  | [] => []
  | t :: ts => t.allRemarks ++ partRemarks ts

end

/-! ### The parts of a node -/

theorem partTexts_eq_map (ts : List Tree) : partTexts ts = ts.map oneLine := by
  induction ts with
  | nil => rfl
  | cons t ts ih => rw [partTexts, ih, List.map_cons]

theorem partRemarks_eq_flatMap (ts : List Tree) : partRemarks ts = ts.flatMap allRemarks := by
  induction ts with
  | nil => rfl
  | cons t ts ih => rw [partRemarks, ih, List.flatMap_cons]

mutual

/-- The width of a fragment is the length of its text without breaks. -/
theorem length_oneLine : ∀ t : Tree, t.oneLine.length = t.width
  | node opening parts separator closing remarks => by
    have h := length_intercalate_partTexts separator parts
    rw [oneLine, width, List.length_append, List.length_append, h]
    omega

/-- The length of the joined texts of parts: their widths, and a separator between neighbours. -/
theorem length_intercalate_partTexts (sep : Text) : ∀ ts : List Tree,
    (sep.intercalate (partTexts ts)).length = partsWidth ts + sep.length * (ts.length - 1)
  | [] => by simp [partTexts, partsWidth]
  | [t] => by
    have h := length_oneLine t
    simp [partTexts, partsWidth, h]
  | t :: u :: rest => by
    have ht := length_oneLine t
    have ih := length_intercalate_partTexts sep (u :: rest)
    have hn : (t :: u :: rest).length - 1 = (u :: rest).length - 1 + 1 := by simp
    rw [partTexts] at ih
    rw [partTexts, partTexts, List.intercalate_cons_cons, List.length_append, List.length_append,
      ih, ht, hn, Nat.mul_succ, partsWidth.eq_2 t (u :: rest)]
    omega

end

end Tree

end EventScript.Layout
