import EventScript.Proofs.Condition.Reading
import EventScript.Proofs.Text.Numeral

/-!
Layers as a mask, as a list and as a text.

The three forms hold the same layers. The list of a mask leads back to the mask; a list that goes
through a mask is put in order and loses its repetitions and the numbers that are no layers; and the
list is read back from the text.

* `Layers.mem_toList_ofList`, `Layers.pairwise_toList`: the list that a mask of a list has;
* `Layers.ofList_toList`, `Layers.text_injective`: what leads back to the mask;
* `Layers.sameLayers`: the three forms together.
-/

namespace EventScript

namespace Layers

/-! ### Lists -/

/-- A layer sets its own bit and no other, and the bits that are set stay. -/
lemma getLsbD_foldl (layers : List Nat) (mask : BitVec 32) (j : Nat) :
    (layers.foldl (fun mask i => if i < 32 then mask ||| BitVec.twoPow 32 i else mask)
      mask).getLsbD j = true ↔ mask.getLsbD j = true ∨ j ∈ layers ∧ j < 32 := by
  induction layers generalizing mask with
  | nil => simp
  | cons i layers ih =>
      rw [List.foldl_cons, ih, List.mem_cons]
      by_cases hi : i < 32
      · have hbit : (mask ||| BitVec.twoPow 32 i).getLsbD j = true ↔
            mask.getLsbD j = true ∨ i = j := by
          rw [BitVec.getLsbD_or, BitVec.getLsbD_twoPow, Bool.or_eq_true, Bool.and_eq_true,
            decide_eq_true_eq, decide_eq_true_eq, and_iff_right hi]
        rw [if_pos hi, hbit]
        grind
      · rw [if_neg hi]
        grind

lemma getLsbD_mask_ofList (layers : List Nat) (j : Nat) :
    (ofList layers).mask.getLsbD j = true ↔ j ∈ layers ∧ j < 32 := by
  rw [ofList, getLsbD_foldl]
  exact or_iff_right (by simp)

/-- The layers of a set are the bits of its mask. -/
lemma mem_toList {l : Layers} {i : Nat} : i ∈ l.toList ↔ l.mask.getLsbD i = true := by
  rw [toList, List.mem_filter, List.mem_range]
  refine and_iff_right_of_imp fun hbit => ?_
  by_contra hi
  rw [BitVec.getLsbD_of_ge l.mask i (Nat.le_of_not_lt hi)] at hbit
  cases hbit

lemma mem_toList_ofList {layers : List Nat} {i : Nat} :
    i ∈ (ofList layers).toList ↔ i ∈ layers ∧ i < 32 := by
  rw [mem_toList, getLsbD_mask_ofList]

lemma pairwise_toList (l : Layers) : l.toList.Pairwise (· < ·) := List.pairwise_lt_range.filter _

/-- **The list of a mask leads back to it.** -/
theorem ofList_toList (l : Layers) : ofList l.toList = l := by
  have hmask : (ofList l.toList).mask = l.mask := by
    refine BitVec.eq_of_getLsbD_eq fun i hi => ?_
    rw [Bool.eq_iff_iff, getLsbD_mask_ofList, mem_toList, and_iff_left hi]
  cases l
  exact congrArg Layers.mk hmask

/-! ### Texts -/

/-- The layers in the text are integers between commas. -/
lemma text_eq (l : Layers) :
    l.text = "$LAYERS(".toList ++
      Text.commaList ((l.toList.map fun i : Nat => Value.int i).map Value.text) ++ [')'] := by
  have hnumerals : l.toList.map (Value.text ∘ fun i : Nat => Value.int i) =
      l.toList.map Text.ofNat :=
    List.map_congr_left fun i _ => Text.ofInt_of_nonneg (Int.natCast_nonneg i)
  rw [List.map_map, hnumerals]
  rfl

/-- **The layers are read back from the text.** -/
theorem text_injective : Function.Injective text := by
  intro l m h
  rw [text_eq, text_eq, List.append_left_inj, List.append_right_inj] at h
  have hread (n : Layers) : Value.readList (Text.squeeze (Text.commaList
      ((n.toList.map fun i : Nat => Value.int i).map Value.text))) =
        n.toList.map fun i : Nat => Value.int i := by
    have hsimple : ∀ v ∈ n.toList.map fun i : Nat => Value.int i, v.isSimple = true :=
      List.forall_mem_map.mpr fun _ _ => rfl
    rw [Value.squeeze_commaList hsimple, Value.readList_joined hsimple]
  have hvalues := hread l
  rw [h, hread m] at hvalues
  have hlists : m.toList = l.toList := by
    refine List.map_injective_iff.mpr (fun i j hij => ?_) hvalues
    exact Int.ofNat.inj (Value.int.inj hij)
  rw [← ofList_toList l, ← hlists, ofList_toList]

/-- **A mask, its list and its text hold the same layers.** The list of a mask leads back to it. The
list that goes through a mask is put in order, and holds the numbers of the first list that are
layers, once each. Masks with the same text are the same. -/
theorem sameLayers (l : Layers) (layers : List Nat) :
    ofList l.toList = l ∧ (ofList layers).toList.Pairwise (· < ·) ∧
      (∀ i, i ∈ (ofList layers).toList ↔ i ∈ layers ∧ i < 32) ∧ ∀ m, m.text = l.text ↔ m = l :=
  ⟨ofList_toList l, pairwise_toList _, fun _ => mem_toList_ofList, fun _ => text_injective.eq_iff⟩

example : (ofList [5, 40, 1, 5]).toList = [1, 5] := by decide

end Layers

end EventScript
